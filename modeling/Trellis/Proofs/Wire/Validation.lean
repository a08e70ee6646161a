import Mathlib.Data.List.Basic
import Trellis.Proofs.Graph.Uids
import Trellis.Wire.Validation

/-!
# What the validation of a wire graph looks for

Each check of a record finds nothing exactly when a statement about the record holds.  Where the
uids, the successors and the counts are right (`Shaped`), only tokens are left to complain about,
and the complaint is about the first token of the first record that lies outside the vocabulary.
-/

namespace Trellis.Wire

variable {vocabSize : Nat}

theorem repeatedUid?_eq_none_iff {seen : List String} {rs : List Record} :
    repeatedUid? seen rs = none ↔ Fresh seen (rs.map Record.uid) := by
  induction rs generalizing seen with
  | nil => simp [repeatedUid?]
  | cons r rs ih =>
    rw [repeatedUid?, List.map_cons, fresh_cons_iff, ← ih]
    split <;> simp_all

/-- What is made of the first item that passes a test. -/
theorem map_find?_eq_some_iff {α β : Type} {p : α → Bool} {f : α → β} {items : List α} {b : β} :
    (items.find? p).map f = some b
      ↔ ∃ front a back, items = front ++ a :: back ∧ (∀ x ∈ front, p x = false) ∧ p a = true
        ∧ b = f a := by
  rw [Option.map_eq_some_iff]
  simp only [List.find?_eq_some_iff_append, Bool.not_eq_true']
  constructor
  · rintro ⟨a, ⟨passes, front, back, split, before⟩, rfl⟩
    exact ⟨front, a, back, split, before, passes, rfl⟩
  · rintro ⟨front, a, back, split, before, passes, rfl⟩
    exact ⟨a, ⟨passes, front, back, split, before⟩, rfl⟩

namespace Record

/-- A choice has no continuation or one per choice; a mask has the size of the vocabulary. -/
def Counted (vocabSize : Nat) (r : Record) : Prop :=
  match r.task with
  | .text .. => True
  | .choose choices _ _ => r.successors = [] ∨ r.successors.length = choices.length
  | .complete c => c.vocab.size = vocabSize

/-- The tokens of a record in order: those of the literal, of the choices one after the other, or of
the stop sequence. -/
def tokens (r : Record) : List TokenId :=
  match r.task with
  | .text _ literal => literal
  | .choose choices _ _ => choices.flatten
  | .complete c => c.stop

/-- The validation goes through the tokens sequence by sequence. -/
theorem flatten_sequences (r : Record) : r.task.sequences.flatten = r.tokens := by
  unfold tokens
  cases r.task with
  | text evaluate literal => exact List.flatten_singleton
  | choose choices threshold width => rfl
  | complete c => exact List.flatten_singleton

/-- Every token of the record lies in the vocabulary. -/
def Spelled (vocabSize : Nat) (r : Record) : Prop := ∀ token ∈ r.tokens, token.toNat < vocabSize

instance (r : Record) : Decidable (r.Spelled vocabSize) :=
  List.decidableBAll (fun token : TokenId => token.toNat < vocabSize) r.tokens

theorem successorDefect?_eq_none_iff {uids : List String} {r : Record} :
    r.successorDefect? uids = none ↔ ∀ s ∈ r.successors, s ∈ uids := by
  simp [successorDefect?]

theorem countDefect?_eq_none_iff {r : Record} :
    r.countDefect? vocabSize = none ↔ r.Counted vocabSize := by
  unfold countDefect? Counted
  cases r.task with
  | text evaluate tokens => simp
  | choose choices threshold width => simp [Classical.or_iff_not_imp_left]
  | complete c => simp

theorem tokenDefect?_eq_none_iff {r : Record} :
    r.tokenDefect? vocabSize = none ↔ r.Spelled vocabSize := by
  rw [tokenDefect?, flatten_sequences, Option.map_eq_none_iff, List.find?_eq_none]
  simp only [decide_eq_true_iff, Nat.not_le]
  rfl

/-- The token that is reported is the first one outside the vocabulary. -/
theorem tokenDefect?_eq_some_iff {r : Record} {d : Defect} :
    r.tokenDefect? vocabSize = some d
      ↔ ∃ front token back, r.tokens = front ++ token :: back
        ∧ (∀ x ∈ front, x.toNat < vocabSize) ∧ vocabSize ≤ token.toNat
        ∧ d = .tokenOutOfRange r.uid token vocabSize := by
  rw [tokenDefect?, flatten_sequences, map_find?_eq_some_iff]
  simp only [decide_eq_true_iff, decide_eq_false_iff_not, Nat.not_le]

end Record

/-- All that the validation asks for beside the tokens. -/
structure Shaped (vocabSize : Nat) (w : Wire) : Prop where
  distinct : w.uids.Nodup
  linked : ∀ r ∈ w.records, ∀ s ∈ r.successors, s ∈ w.uids
  counted : ∀ r ∈ w.records, r.Counted vocabSize

section Shaped

variable {w : Wire}

theorem Shaped.defect?_eq (h : w.Shaped vocabSize) :
    w.defect? vocabSize = w.records.findSome? (Record.tokenDefect? vocabSize) := by
  have distinct : repeatedUid? [] w.records = none :=
    repeatedUid?_eq_none_iff.2 (fresh_iff_nodup.2 h.distinct)
  have record : ∀ r ∈ w.records, r.defect? w.uids vocabSize = r.tokenDefect? vocabSize := by
    intro r hr
    rw [Record.defect?, Record.successorDefect?_eq_none_iff.2 (h.linked r hr),
      Record.countDefect?_eq_none_iff.2 (h.counted r hr), Option.none_or, Option.none_or]
  rw [defect?, distinct, Option.map_none, Option.none_or]
  rw [← List.head?_filterMap, ← List.head?_filterMap, List.filterMap_congr record]

/-- A wire graph without a defect is shaped, with every token in the vocabulary. -/
theorem defect?_eq_none_iff :
    w.defect? vocabSize = none
      ↔ w.Shaped vocabSize ∧ ∀ r ∈ w.records, r.Spelled vocabSize := by
  constructor
  · intro none
    rw [defect?, Option.or_eq_none_iff, Option.map_eq_none_iff, repeatedUid?_eq_none_iff,
      fresh_iff_nodup, List.findSome?_eq_none_iff] at none
    obtain ⟨distinct, none⟩ := none
    have each : ∀ r ∈ w.records, (∀ s ∈ r.successors, s ∈ w.uids) ∧ r.Counted vocabSize
        ∧ r.Spelled vocabSize := by
      intro r hr
      have none := none r hr
      rwa [Record.defect?, Option.or_eq_none_iff, Option.or_eq_none_iff,
        Record.successorDefect?_eq_none_iff, Record.countDefect?_eq_none_iff,
        Record.tokenDefect?_eq_none_iff] at none
    exact ⟨⟨distinct, fun r hr => (each r hr).1, fun r hr => (each r hr).2.1⟩,
      fun r hr => (each r hr).2.2⟩
  · rintro ⟨shaped, spelled⟩
    rw [shaped.defect?_eq, List.findSome?_eq_none_iff]
    intro r hr
    exact Record.tokenDefect?_eq_none_iff.2 (spelled r hr)

theorem validate_eq_ok_iff : w.validate vocabSize = .ok () ↔ w.defect? vocabSize = none := by
  rw [validate]
  split <;> simp_all

theorem validate_eq_error_iff {d : Defect} :
    w.validate vocabSize = .error d ↔ w.defect? vocabSize = some d := by
  rw [validate]
  split <;> simp_all

theorem Shaped.validate_eq_ok_iff (h : w.Shaped vocabSize) :
    w.validate vocabSize = .ok () ↔ ∀ r ∈ w.records, r.Spelled vocabSize := by
  rw [Wire.validate_eq_ok_iff, h.defect?_eq, List.findSome?_eq_none_iff]
  simp only [Record.tokenDefect?_eq_none_iff]

/-- The first record that leaves the vocabulary is named with its first token that does. -/
theorem Shaped.validate_eq_error_iff (h : w.Shaped vocabSize) {d : Defect} :
    w.validate vocabSize = .error d
      ↔ ∃ before r after, w.records = before ++ r :: after
        ∧ (∀ b ∈ before, b.Spelled vocabSize) ∧ r.tokenDefect? vocabSize = some d := by
  rw [Wire.validate_eq_error_iff, h.defect?_eq, List.findSome?_eq_some_iff]
  simp only [Record.tokenDefect?_eq_none_iff]
  constructor
  · rintro ⟨before, r, after, split, found, spelled⟩
    exact ⟨before, r, after, split, spelled, found⟩
  · rintro ⟨before, r, after, split, spelled, found⟩
    exact ⟨before, r, after, split, found, spelled⟩

end Shaped

end Trellis.Wire
