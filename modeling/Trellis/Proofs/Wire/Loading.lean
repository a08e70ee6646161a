import Trellis.Proofs.Json.Finite
import Trellis.Proofs.Wire.Document
import Trellis.Proofs.Wire.Validation

/-!
# What a loaded wire graph guarantees

The schema judges a document as a value, the decoder takes the members of the same value apart, and
the validation sees only what was decoded.  The first two look at a member in two ways, so they are
brought together here: a member that passes its test and is read is read as something in range, and
the kind whose fields are judged is the kind that is decoded.  A weight is only asked to be a
number; it is finite because every number of a text is (`Value.finite_of_read?`).  So whatever the
text, a wire graph that is loaded is `Fit`, and what it is written as is loaded again.
-/

namespace Trellis.Wire

open Json Value

variable {vocabSize : Nat}

/-! ## A member that passes and is read -/

namespace Schema

section Tests

variable {v : Value}

theorem ne_empty_of_isNonempty {s : String} (passes : isNonempty v = true)
    (read : v.asString? = some s) : s ≠ "" := by
  cases v <;> cases read
  exact isNonempty_string.1 passes

theorem ne_zero_of_isCount {n : UInt32} (passes : isCount v = true)
    (read : v.asWord? = some n) : n ≠ 0 := by
  cases v with
  | number m =>
    cases m with
    | natural k =>
      rw [asWord?] at read
      split at read
      · next small =>
        cases read
        have positive : 1 ≤ k := of_decide_eq_true passes
        rw [Ne, ← UInt32.toNat_inj, UInt32.toNat_ofNat_of_lt' small, UInt32.toNat_zero]
        omega
      · cases read
    | negative k => cases read
    | float x => cases read
  | _ => cases read

theorem inUnit_of_isThreshold {x : Float} (passes : isThreshold v = true)
    (read : v.asFloat? = some x) : InUnit x := by
  cases v with
  | number m =>
    cases read
    cases m with
    | natural k =>
      have small : k ≤ 1 := of_decide_eq_true passes
      have ends : ∀ k ≤ 1, InUnit (Float.ofNat k) := by decide +kernel
      exact ends k small
    | negative k => cases passes
    | float y => exact inUnitB_iff.1 passes
  | _ => cases read

/-- A number is finite when those of its value are. -/
theorem isFinite_of_asFloat? {x : Float} (finite : ∀ n ∈ v.numbers, n.Finite)
    (read : v.asFloat? = some x) : x.isFinite = true := by
  cases v with
  | number m =>
    cases read
    exact finite m List.mem_cons_self
  | _ => cases read

end Tests

section Fields

variable {v : Value} {key : String} {α : Type} {read : Value → Option α} {a : α}

/-- The test and the reader look at the same member. -/
theorem exists_of_has {test : Value → Bool} (passes : has v key test = true)
    (decoded : v.field? key read = some a) :
    ∃ w, v.get? key = some w ∧ test w = true ∧ read w = some a := by
  obtain ⟨w, found, decoded⟩ := Option.bind_eq_some_iff.1 decoded
  rw [has, found] at passes
  exact ⟨w, found, passes, decoded⟩

theorem ne_zero_of_has {n : UInt32} (passes : has v key isCount = true)
    (decoded : v.field? key asWord? = some n) : n ≠ 0 := by
  obtain ⟨w, _, passes, decoded⟩ := exists_of_has passes decoded
  exact ne_zero_of_isCount passes decoded

theorem inUnit_of_has {x : Float} (passes : has v key isThreshold = true)
    (decoded : v.field? key asFloat? = some x) : InUnit x := by
  obtain ⟨w, _, passes, decoded⟩ := exists_of_has passes decoded
  exact inUnit_of_isThreshold passes decoded

theorem isFinite_of_field? {x : Float} (finite : ∀ n ∈ v.numbers, n.Finite)
    (decoded : v.field? key asFloat? = some x) : x.isFinite = true := by
  obtain ⟨w, found, decoded⟩ := Option.bind_eq_some_iff.1 decoded
  exact isFinite_of_asFloat? (fun n hn => finite n (numbers_of_get? found n hn)) decoded

end Fields

/-- The kind whose fields are judged is the kind that is decoded. -/
theorem kind_unique {v : Value} {judged decoded : Kind}
    (tag : (v.field? Kind.key asString?).bind Kind.ofTag? = some judged)
    (read : v.field? Kind.key Kind.ofValue? = some decoded) : judged = decoded := by
  obtain ⟨w, found, read⟩ := Option.bind_eq_some_iff.1 read
  rw [field?, found] at tag
  cases w with
  | string s =>
    have same : some judged = some decoded := tag.symm.trans read
    exact Option.some.inj same
  | _ => cases tag

end Schema

/-! ## What is decoded is in range -/

/-- Fields that pass for a kind are decoded to options in range. -/
theorem Task.inRange_of_ofMembers? {v : Value} {kind : Kind} {task : Task}
    (finite : ∀ n ∈ v.numbers, n.Finite)
    (passes : ((Schema.fields kind).all fun f => Schema.has v f.1 f.2) = true)
    (decoded : ofMembers? v kind = some task) : task.InRange := by
  cases kind with
  | text =>
    simp only [ofMembers?, Option.bind_eq_bind, Option.bind_eq_some_iff] at decoded
    obtain ⟨evaluate, _, tokens, _, decoded⟩ := decoded
    cases decoded
    trivial
  | choose =>
    simp only [Schema.fields, List.all_cons, Bool.and_eq_true] at passes
    obtain ⟨_, unit, wide, _⟩ := passes
    simp only [ofMembers?, Option.bind_eq_bind, Option.bind_eq_some_iff] at decoded
    obtain ⟨choices, _, threshold, first, width, second, decoded⟩ := decoded
    cases decoded
    exact ⟨Schema.inUnit_of_has unit first, Schema.ne_zero_of_has wide second⟩
  | complete =>
    simp only [Schema.fields, List.all_cons, Bool.and_eq_true] at passes
    obtain ⟨long, _, _, unit, wide, beamed, _⟩ := passes
    simp only [ofMembers?, Option.bind_eq_bind, Option.bind_eq_some_iff] at decoded
    obtain ⟨length, hl, stop, _, bits, _, threshold, ht, width, hw, beams, hb, ahead, _,
      diversity, hd, repetition, hr, decoded⟩ := decoded
    cases decoded
    exact {
      length := Schema.ne_zero_of_has long hl
      threshold := Schema.inUnit_of_has unit ht
      width := Schema.ne_zero_of_has wide hw
      beams := Schema.ne_zero_of_has beamed hb
      diversity := Schema.isFinite_of_field? finite hd
      repetition := Schema.isFinite_of_field? finite hr }

theorem Record.inRange_of_ofValue? {v : Value} {r : Record}
    (finite : ∀ n ∈ v.numbers, n.Finite) (passes : Schema.isRecord v = true)
    (decoded : ofValue? v = some r) : r.uid ≠ "" ∧ r.task.InRange := by
  simp only [ofValue?, Option.bind_eq_bind, Option.bind_eq_some_iff] at decoded
  obtain ⟨uid, named, successors, _, kind, tag, task, members, decoded⟩ := decoded
  cases decoded
  rw [Schema.isRecord, Bool.and_eq_true, Bool.and_eq_true] at passes
  obtain ⟨⟨nonempty, _⟩, passes⟩ := passes
  split at passes
  · next judged found =>
    cases Schema.kind_unique found tag
    obtain ⟨w, _, nonempty, named⟩ := Schema.exists_of_has nonempty named
    constructor
    · exact Schema.ne_empty_of_isNonempty nonempty named
    · exact Task.inRange_of_ofMembers? finite passes members
  · cases passes

/-- Whatever passes the schema is decoded to a wire graph that meets it. -/
theorem meetsSchema_of_ofValue? {v : Value} {w : Wire} (finite : ∀ n ∈ v.numbers, n.Finite)
    (passes : Schema.isDocument v = true) (decoded : ofValue? v = some w) : w.MeetsSchema := by
  rw [ofValue?] at decoded
  obtain ⟨records, members, rfl⟩ := Option.map_eq_some_iff.1 decoded
  -- an array has no members, so what passes is an object
  have member : v.field? "actions" (asList? Record.ofValue?) = some records := by
    cases v with
    | array items => cases passes
    | _ => exact members
  obtain ⟨list, found, passes, member⟩ := Schema.exists_of_has passes member
  obtain ⟨items, rfl, each⟩ := exists_of_asList? member
  intro r hr
  obtain ⟨item, here, decoded⟩ := each r hr
  have numbers : ∀ n ∈ item.numbers, n.Finite := fun n hn =>
    finite n (numbers_of_get? found n (mem_itemNumbers.2 ⟨item, here, hn⟩))
  exact Record.inRange_of_ofValue? numbers (List.all_eq_true.1 passes item here) decoded

/-! ## Loading -/

/-- What the oracle relies on for a vocabulary of this size. -/
structure Fit (vocabSize : Nat) (w : Wire) : Prop extends w.Shaped vocabSize where
  named : ∀ r ∈ w.records, r.uid ≠ ""
  spelled : ∀ r ∈ w.records, r.Spelled vocabSize
  inRange : ∀ r ∈ w.records, r.task.InRange

/-- A loading that succeeds has passed all four stages. -/
theorem stages_of_ofJson {cs : List Char} {w : Wire} (loaded : ofJson cs vocabSize = .ok w) :
    ∃ v, read? cs = some v ∧ Schema.isDocument v = true ∧ ofValue? v = some w
      ∧ w.validate vocabSize = .ok () := by
  unfold ofJson at loaded
  split at loaded
  · cases loaded
  · next v read =>
    unfold ofValue at loaded
    split at loaded
    · next passes =>
      split at loaded
      · cases loaded
      · next u decoded =>
        split at loaded
        · cases loaded
        · next valid =>
          cases loaded
          exact ⟨v, read, passes, decoded, valid⟩
    · cases loaded

/-- **What is loaded is fit for the vocabulary**, whatever the text, and what it is written as is
loaded again. -/
theorem fit_of_ofJson {cs : List Char} {w : Wire} (loaded : ofJson cs vocabSize = .ok w) :
    w.Fit vocabSize
    ∧ (w.toValue.DoublesReadBack → ofJson w.toJson vocabSize = .ok w) := by
  obtain ⟨v, read, passes, decoded, valid⟩ := stages_of_ofJson loaded
  have meets : w.MeetsSchema := meetsSchema_of_ofValue? (finite_of_read? read) passes decoded
  obtain ⟨shaped, spelled⟩ := defect?_eq_none_iff.1 (validate_eq_ok_iff.1 valid)
  constructor
  · exact {
      toShaped := shaped
      named := fun r hr => (meets r hr).1
      spelled
      inRange := fun r hr => (meets r hr).2 }
  · intro doubles
    rw [reload_of_meetsSchema doubles meets, valid]

/-- The document of a completion with its fields out of order.  The threshold is an integer, the
width is written twice, first as something else, and a field is there that nothing reads. -/
def handwritten : List Char :=
  "\x7b\"actions\":[\x7b\"width\":null,\"note\":[],".toList
    ++ "\"uid\":\"a\",\"__type__\":\"Complete\",".toList
    ++ "\"successors\":[\"a\"],\"length\":7,\"ahead\":0,".toList
    ++ "\"beams\":1,\"diversity\":2,\"repetition\":-1,".toList
    ++ "\"threshold\":1,\"vocab\":[true,false],".toList
    ++ "\"stop\":[1],\"width\":3\x7d]\x7d".toList

/-- The completion of the document. -/
def typed : Wire where
  records :=
    [{ uid := "a", successors := ["a"],
       task := .complete
         { length := 7, stop := [1], vocab := ⟨[true, false]⟩, threshold := 1.0, width := 3,
           beams := 1, ahead := 0, diversity := 2.0, repetition := -1.0 } }]

theorem fit_of_ofJson_handwritten :
    ofJson handwritten 2 = .ok typed ∧ typed.Fit 2
      ∧ typed.toJson ≠ handwritten ∧ ofJson typed.toJson 2 = .ok typed := by
  have loaded : ofJson handwritten 2 = .ok typed := by decide +kernel
  have doubles : typed.toValue.DoublesReadBack := by decide +kernel
  obtain ⟨fit, reload⟩ := fit_of_ofJson loaded
  exact ⟨loaded, fit, by decide +kernel, reload doubles⟩

end Trellis.Wire
