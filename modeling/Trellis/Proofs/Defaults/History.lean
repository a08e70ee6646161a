import Trellis.Defaults.Store
import Trellis.Proofs.Defaults.RoundTrip
import Trellis.Proofs.Store.Saving

/-!
# The last table that was written is loaded

A table is written only when it is valid, and what is written is read back, so the file of a path
holds the table of the last write that succeeded.  The invariant of a history of requests says so of
the store: it is as it was in the beginning, or the file is the text of that table; and the file can
be replaced.  What is loaded is checked once more, so a table that is loaded is valid whatever text
the file holds.
-/

namespace Trellis

/-- The text of a file is what was written to it. -/
theorem fromUTF8?_toUTF8 (s : String) : String.fromUTF8? s.toUTF8 = some s :=
  dif_pos s.isValidUTF8

theorem Defaults.validate_builtIn : builtIn.validate = .ok () := rfl

namespace Store

/-! ## One request -/

section Request

variable {s : Store} {p : Path} {d : Defaults}

theorem write_of_invalid {f : Defaults.Fault} (h : d.validate = .error f) :
    s.write p d = (s, .error (.refused f)) := by
  unfold write
  simp only [h]

theorem write_of_valid (h : d.validate = .ok ()) :
    s.write p d = ((s.save p (String.ofList d.toToml).toUTF8).1,
      (s.save p (String.ofList d.toToml).toUTF8).2.mapError .notSaved) := by
  rw [write, h]

/-- A table that is parsed is valid. -/
theorem validate_of_parse {path text : String} (h : parse path text = .ok d) :
    d.validate = .ok () := by
  unfold parse at h
  split at h
  · cases h
  · split at h
    · cases h
    · next valid =>
      cases h
      exact valid

/-- A table that is loaded is valid. -/
theorem validate_of_load (h : s.load p = .ok d) : d.validate = .ok () := by
  unfold load at h
  split at h
  · cases h
    exact Defaults.validate_builtIn
  · cases h
  · split at h
    · cases h
    · exact validate_of_parse h

theorem load_of_none (h : s.get? p = none) : s.load p = .ok Defaults.builtIn := by
  rw [load, h]

/-- The file of a valid table is loaded as that table. -/
theorem load_of_file (valid : d.validate = .ok ())
    (h : s.get? p = some (.file (String.ofList d.toToml).toUTF8)) : s.load p = .ok d := by
  have read : Defaults.ofToml? (String.ofList d.toToml).toList = some d := by
    rw [String.toList_ofList, Defaults.ofToml?_toToml (Defaults.validate_eq_ok_iff.1 valid)]
  rw [load, h]
  dsimp only
  rw [fromUTF8?_toUTF8]
  dsimp only
  rw [parse, read]
  dsimp only
  rw [valid]

end Request

/-! ## Histories -/

/-- What can be asked for at a path. -/
inductive Request where
  | write (d : Defaults)
  | load

/-- A store behind some requests, and the table of the last write that succeeded. -/
structure History where
  store : Store
  latest : Option Defaults

namespace History

/-- A store with no request behind it. -/
def start (s : Store) : History := ⟨s, none⟩

/-- One more request. -/
def next (p : Path) (h : History) : Request → History
  | .load => h
  | .write d =>
    match h.store.write p d with
    | (s, .ok ()) => ⟨s, some d⟩
    | (s, .error _) => ⟨s, h.latest⟩

/-- More requests, in order. -/
def run (p : Path) (h : History) (requests : List Request) : History := requests.foldl (next p) h

/-- The file of the path holds the latest table, and it can be replaced. -/
structure Keeps (p : Path) (h : History) : Prop where
  replaceable : ∀ content, (h.store.save p content).2 = .ok ()
  initial : h.latest = none → h.store.get? p = none
  written : ∀ d, h.latest = some d → d.validate = .ok ()
    ∧ h.store.get? p = some (.file (String.ofList d.toToml).toUTF8)

section Keeps

variable {p : Path} {h : History}

/-- A valid table is written. -/
theorem Keeps.write (keeps : h.Keeps p) {d : Defaults} (valid : d.validate = .ok ()) :
    h.store.write p d = ((h.store.save p (String.ofList d.toToml).toUTF8).1, .ok ()) := by
  rw [write_of_valid valid, keeps.replaceable]
  rfl

/-- The latest table is loaded. -/
theorem Keeps.load (keeps : h.Keeps p) :
    h.store.load p = .ok (h.latest.getD Defaults.builtIn) := by
  cases latest : h.latest with
  | none => exact load_of_none (keeps.initial latest)
  | some d =>
    obtain ⟨valid, file⟩ := keeps.written d latest
    exact load_of_file valid file

/-- A request keeps the file with the latest table. -/
theorem Keeps.next (keeps : h.Keeps p) (request : Request) : (h.next p request).Keeps p := by
  cases request with
  | load => exact keeps
  | write d =>
    cases check : d.validate with
    | error f =>
      have same : h.next p (.write d) = h := by
        simp only [History.next, write_of_invalid check]
      rw [same]
      exact keeps
    | ok u =>
      have saved := keeps.replaceable (String.ofList d.toToml).toUTF8
      have again := save_save saved
      have found := get?_save saved
      have after : h.next p (.write d)
          = ⟨(h.store.save p (String.ofList d.toToml).toUTF8).1, some d⟩ := by
        simp only [History.next, keeps.write check]
      rw [after]
      -- how the file was saved does not matter any more
      generalize (h.store.save p (String.ofList d.toToml).toUTF8).1 = t at again found ⊢
      constructor
      case replaceable => exact again
      case initial => exact nofun
      case written =>
        intro e same
        cases same
        exact ⟨check, found⟩

theorem Keeps.run (keeps : h.Keeps p) (requests : List Request) : (h.run p requests).Keeps p := by
  induction requests generalizing h with
  | nil => exact keeps
  | cons request requests ih => exact ih (keeps.next request)

end Keeps

theorem keeps_start {s : Store} {p : Path} (missing : s.get? p = none) {content : ByteArray}
    (replaceable : (s.save p content).2 = .ok ()) : (start s).Keeps p where
  replaceable := save_eq_ok_of_save replaceable
  initial _ := missing
  written := nofun

/-- **The last write that succeeded is what is loaded.**  At a path without a file, where one can be
put, and after any requests: a write succeeds exactly for a valid table, and otherwise leaves the
store as it was; and a load gives the table of the last write that succeeded, the built-in one where
there was none.  Whatever stands at the path instead, a table that is loaded is valid. -/
theorem load_run {s : Store} {p : Path} (missing : s.get? p = none) {content : ByteArray}
    (replaceable : (s.save p content).2 = .ok ()) (before : List Request) :
    (∀ d, (((start s).run p before).store.write p d).2 = .ok () ↔ d.validate = .ok ())
      ∧ (∀ d f, d.validate = .error f → ((start s).run p before).store.write p d
        = (((start s).run p before).store, .error (.refused f)))
      ∧ ((start s).run p before).store.load p
        = .ok (((start s).run p before).latest.getD Defaults.builtIn)
      ∧ ∀ t d, Store.load t p = .ok d → d.validate = .ok () := by
  have keeps := (keeps_start missing replaceable).run before
  refine ⟨fun d => ⟨fun written => ?_, fun valid => ?_⟩, fun _ _ => write_of_invalid, keeps.load,
    fun _ _ => validate_of_load⟩
  · cases check : d.validate with
    | ok u => rfl
    | error f =>
      rw [write_of_invalid check] at written
      cases written
  · rw [keeps.write valid]

/-- A file in a folder that is made for it: a threshold that is not a number is refused, and the
table in front of it is loaded. -/
theorem load_run_refused :
    empty.get? ⟨"conf/./defaults.toml"⟩ = none
      ∧ (empty.save ⟨"conf/./defaults.toml"⟩ ByteArray.empty).2 = .ok ()
      ∧ ((start empty).run ⟨"conf/./defaults.toml"⟩
        [.load, .write { choose := { threshold := 0.1, width := 7 } }, .load,
          .write { choose := { threshold := 0.0 / 0.0 } }]).store.load ⟨"conf/./defaults.toml"⟩
        = .ok { choose := { threshold := 0.1, width := 7 } } :=
  ⟨rfl, rfl, (@load_run empty ⟨"conf/./defaults.toml"⟩ rfl ByteArray.empty rfl _).2.2.1⟩

end History

end Store

end Trellis
