import Trellis.Oracle
import Trellis.Proofs.Compile.Basic
import Trellis.Proofs.Graph.Walk

/-!
# The walk of a compiled graph

Step by step, the walk along the records of a compiled graph stays with the walk along its actions:
records are found where actions are (`rel_get?`), and a choice with a single continuation goes on
with it when it is written out (`head?_broadcast`).  So what is emitted on the one are the spellings
of what is spoken on the other (`emittedFrom_spells`).
-/

namespace Trellis

/-- Written out, a sound action goes on with the same successor. -/
theorem Action.head?_broadcast {a : Action} (sound : a.Sound) :
    a.broadcast.head? = a.successors.head? := by
  unfold broadcast
  split
  · next choices threshold width s task single =>
    rw [Sound, task] at sound
    obtain ⟨choice, others, rfl⟩ := List.exists_cons_of_ne_nil sound.1
    rw [single]
    rfl
  · rfl

namespace Compile

variable {t : Tokenizer ρ} {d : Defaults} {mask : Mask} {g : Graph} {w : Wire}

/-- What a record emits spells what its action speaks. -/
theorem RecordOf.emitted {a : Action} {r : Wire.Record} (h : RecordOf t d mask a r) :
    ∃ rows, List.Forall₂ (Spells t) a.task.spoken rows ∧ r.emitted = rows.flatten := by
  have task := h.task
  unfold Wire.Record.emitted
  generalize a.task = source at task
  generalize r.task = target at task
  cases task with
  | text spelled => exact ⟨[_], .cons spelled .nil, (List.append_nil _).symm⟩
  | choose spelled =>
    cases spelled with
    | nil => exact ⟨[], .nil, rfl⟩
    | cons first others => exact ⟨[_], .cons first .nil, (List.append_nil _).symm⟩
  | complete set spelled => exact ⟨[], .nil, rfl⟩

section Walk

variable (records : List.Forall₂ (RecordOf t d mask) g.actions w.records)

include records

/-- A uid finds the record of the action that it finds. -/
theorem rel_get? (uid : String) : Option.Rel (RecordOf t d mask) (g.get? uid) (w.get? uid) := by
  rw [Graph.get?_eq_find?, Wire.get?]
  generalize g.actions = actions, w.records = rs at records
  induction records with
  | nil => exact .none
  | @cons a r actions rs first later ih =>
    rw [List.find?_cons, List.find?_cons, first.uid]
    cases a.uid == uid with
    | true => exact .some first
    | false => exact ih

theorem rel_start : Option.Rel (RecordOf t d mask) g.entry? w.entry? := by
  rw [Graph.entry?, Wire.entry?]
  generalize g.actions = actions, w.records = rs at records
  cases records with
  | nil => exact .none
  | cons first later => exact .some first

/-- The walks go on side by side. -/
theorem rel_next? {a : Action} {r : Wire.Record} (sound : a.Sound) (h : RecordOf t d mask a r) :
    Option.Rel (RecordOf t d mask) (g.next? a) (r.successors.head?.bind w.get?) := by
  rw [h.successors, Action.head?_broadcast sound, Graph.next?]
  cases a.successors.head? with
  | none => exact .none
  | some uid => exact rel_get? records uid

/-- What is emitted on the walk along the records spells what is spoken along the actions. -/
theorem emittedFrom_spells (sound : ∀ a ∈ g.actions, a.Sound) {steps : Nat} {a : Option Action}
    {r : Option Wire.Record} (known : ∀ b ∈ a, b ∈ g.actions)
    (h : Option.Rel (RecordOf t d mask) a r) :
    ∃ rows, List.Forall₂ (Spells t) ((g.walkFrom steps a).flatMap fun b => b.task.spoken) rows
      ∧ w.emittedFrom steps r = rows.flatten := by
  induction steps generalizing a r with
  | zero => exact ⟨[], .nil, rfl⟩
  | succ steps ih =>
    cases h with
    | none => exact ⟨[], .nil, rfl⟩
    | @some a r here =>
      have next := rel_next? records (sound a (known a rfl)) here
      obtain ⟨rows, first, emitted⟩ := here.emitted
      obtain ⟨rest, later, emittedLater⟩ := ih (fun b hb => Graph.mem_of_next? hb) next
      refine ⟨rows ++ rest, ?_, ?_⟩
      · rw [Graph.walkFrom, List.flatMap_cons]
        exact List.rel_append first later
      · rw [Wire.emittedFrom, emitted, emittedLater, List.flatten_append]

end Walk

end Compile

end Trellis
