import Trellis.Proofs.Compile.Basic
import Trellis.Proofs.Wire.Schema
import Trellis.Proofs.Wire.Validation

/-!
# Compiled graphs are validated

What the validation of a wire graph asks for beside the tokens is settled by the checks before the
compilation: uids are copied, successors are only repeated, and a choice with a single continuation
is given one per choice.  The options of a record come from the action or from the table, and both
have been checked.  So only the tokenizer can make a compiled graph unfit for its vocabulary.
-/

namespace Trellis

open Asking

namespace Action

theorem mem_of_mem_broadcast {a : Action} {s : String} (h : s ∈ a.broadcast) :
    s ∈ a.successors := by
  unfold broadcast at h
  split at h
  · next single =>
    rw [single, List.eq_of_mem_replicate h]
    exact List.mem_singleton_self _
  · exact h

/-- Written out, a sound choice has no continuation or one per choice. -/
theorem length_broadcast {a : Action} (sound : a.Sound) {choices : List String}
    {threshold : Option Float} {width : Option UInt32}
    (h : a.task = .choose choices threshold width) :
    a.broadcast = [] ∨ a.broadcast.length = choices.length := by
  rw [Sound, h] at sound
  rw [broadcast, h]
  have shape := sound.2.1
  rcases several : a.successors with _ | ⟨s, _ | ⟨s', rest⟩⟩
  · exact .inl rfl
  · exact .inr (List.length_replicate ..)
  · rw [several] at shape
    exact .inr (shape.resolve_left (by simp))

end Action

namespace Compile

variable {t : Tokenizer ρ} {d : Defaults} {mask : Mask}

/-- What holds of an option that is set and of its default holds of the option filled in. -/
theorem getD_of {α : Type} {P : α → Prop} {option : Option α} (set : ∀ x ∈ option, P x)
    {default : α} (unset : P default) : P (option.getD default) := by
  cases option with
  | none => exact unset
  | some x => exact set x rfl

theorem RecordOf.inRange {a : Action} {r : Wire.Record} (h : RecordOf t d mask a r)
    (sound : a.Sound) (table : d.InRange) : r.task.InRange := by
  have task := h.task
  rw [Action.Sound] at sound
  generalize a.task = source at sound task
  generalize r.task = target at task
  cases task with
  | text spelled => trivial
  | choose spelled =>
    obtain ⟨_, _, threshold, width⟩ := sound
    exact ⟨getD_of threshold table.chooseThreshold, getD_of width table.chooseWidth⟩
  | complete set spelled =>
    obtain ⟨⟨length, same, positive⟩, threshold, width, beams, diversity, repetition⟩ := sound
    cases set.symm.trans same
    exact {
      length := positive
      threshold := getD_of threshold table.completeThreshold
      width := getD_of width table.completeWidth
      beams := getD_of beams table.beams
      diversity := getD_of diversity table.diversity
      repetition := getD_of repetition table.repetition }

theorem RecordOf.counted {a : Action} {r : Wire.Record} (h : RecordOf t d mask a r)
    (sound : a.Sound) : r.Counted mask.size := by
  unfold Wire.Record.Counted
  rw [h.successors]
  have task := h.task
  generalize hs : a.task = source at task
  generalize r.task = target at task
  cases task with
  | text spelled => trivial
  | choose spelled =>
    have shape := Action.length_broadcast sound hs
    rwa [spelled.length_eq] at shape
  | complete set spelled => rfl

end Compile

section Compiled

variable {g : Graph} {d : Defaults} {mask : Mask} {t : Tokenizer ρ} {w : Wire}

/-- Every record stands for an action. -/
theorem exists_recordOf (h : outcome (compile g d mask t) = .ok w) {r : Wire.Record}
    (hr : r ∈ w.records) : ∃ a ∈ g.actions, Compile.RecordOf t d mask a r :=
  Compile.exists_left_of_forall₂ (compile_eq_ok_iff.1 h).2 hr

theorem uids_of_compile (h : outcome (compile g d mask t) = .ok w) : w.uids = g.uids := by
  have same : List.Forall₂ (· = ·) (g.actions.map Action.uid) (w.records.map Wire.Record.uid) := by
    rw [List.forall₂_map_left_iff, List.forall₂_map_right_iff]
    exact (compile_eq_ok_iff.1 h).2.imp fun _ _ record => record.uid.symm
  rw [List.forall₂_eq_eq_eq] at same
  exact same.symm

theorem inRange_of_compile (h : outcome (compile g d mask t) = .ok w) :
    ∀ r ∈ w.records, r.task.InRange := by
  obtain ⟨⟨valid, table, _⟩, _⟩ := compile_eq_ok_iff.1 h
  intro r hr
  obtain ⟨a, ha, record⟩ := exists_recordOf h hr
  exact record.inRange (valid.sound a ha) table

theorem shaped_of_compile (h : outcome (compile g d mask t) = .ok w) :
    w.Shaped t.vocabSize := by
  obtain ⟨⟨valid, _, size⟩, _⟩ := compile_eq_ok_iff.1 h
  constructor
  · rw [uids_of_compile h]
    exact valid.distinct
  · intro r hr s hs
    obtain ⟨a, ha, record⟩ := exists_recordOf h hr
    rw [record.successors] at hs
    rw [uids_of_compile h]
    exact (valid.linked a ha s (Action.mem_of_mem_broadcast hs)).2
  · intro r hr
    obtain ⟨a, ha, record⟩ := exists_recordOf h hr
    rw [← size]
    exact record.counted (valid.sound a ha)

/-- **What a compiled graph can still be refused for.**  The records are in the order of the
actions, and their options are in range.  The validation succeeds exactly when every token lies in
the vocabulary; otherwise it names the first record with a token outside, and the first such
token. -/
theorem validate_of_compile (h : outcome (compile g d mask t) = .ok w) :
    w.records.map Wire.Record.uid = g.actions.map Action.uid
    ∧ (∀ r ∈ w.records, r.task.InRange)
    ∧ (w.validate t.vocabSize = .ok ()
      ↔ ∀ r ∈ w.records, ∀ token ∈ r.tokens, token.toNat < t.vocabSize)
    ∧ ∀ defect, w.validate t.vocabSize = .error defect
      ↔ ∃ before r after front token back, w.records = before ++ r :: after
        ∧ (∀ b ∈ before, ∀ x ∈ b.tokens, x.toNat < t.vocabSize)
        ∧ r.tokens = front ++ token :: back
        ∧ (∀ x ∈ front, x.toNat < t.vocabSize) ∧ t.vocabSize ≤ token.toNat
        ∧ defect = .tokenOutOfRange r.uid token t.vocabSize := by
  have shaped := shaped_of_compile h
  refine ⟨uids_of_compile h, inRange_of_compile h, shaped.validate_eq_ok_iff, fun defect => ?_⟩
  rw [shaped.validate_eq_error_iff]
  simp only [Wire.Record.tokenDefect?_eq_some_iff]
  constructor
  · rintro ⟨before, r, after, records, spelled, front, token, back, first⟩
    exact ⟨before, r, after, front, token, back, records, spelled, first⟩
  · rintro ⟨before, r, after, front, token, back, records, spelled, first⟩
    exact ⟨before, r, after, records, spelled, front, token, back, first⟩

end Compiled

/-- A choice between two literals, both of which go on to one completion. -/
def sampleGraph : Graph := .ofActions
  [{ uid := "pick", successors := ["fill"], task := .choose ["yes", "no"] none none },
    { uid := "fill", successors := [], task := .complete { length := some 4, stop := "." } }]

/-- A tokenizer with one token for each character, none of which exceeds six. -/
def sampleTokenizer (vocabSize : Nat) : Tokenizer where
  vocabSize
  tokenize text _ _ := .ok (text.toList.map fun c => .ofNat (c.toNat % 7))
  detokenize _ := .ok ""

/-- What the sample is compiled to. -/
def sampleWire (vocabSize : Nat) : Wire where
  records :=
    [{ uid := "pick", successors := ["fill", "fill"], task := .choose [[2, 3, 3], [5, 6]] 0.4 2 },
      { uid := "fill", successors := [],
        task := .complete
          { length := 4, stop := [4], vocab := .allowAll vocabSize, threshold := 0.3, width := 2,
            beams := 3, ahead := 1, diversity := 1.0, repetition := 0.5 } }]

/-- With seven tokens the sample is fit for its vocabulary; with four, the second choice is the
first to leave it. -/
theorem validate_of_compile_sample :
    (outcome (compile sampleGraph {} (.allowAll 7) (sampleTokenizer 7)) = .ok (sampleWire 7)
      ∧ (sampleWire 7).validate 7 = .ok ())
    ∧ outcome (compile sampleGraph {} (.allowAll 4) (sampleTokenizer 4)) = .ok (sampleWire 4)
      ∧ (sampleWire 4).validate 4 = .error (.tokenOutOfRange "pick" 5 4) := by
  have seven : outcome (compile sampleGraph {} (.allowAll 7) (sampleTokenizer 7))
      = .ok (sampleWire 7) := rfl
  have four : outcome (compile sampleGraph {} (.allowAll 4) (sampleTokenizer 4))
      = .ok (sampleWire 4) := rfl
  have spelled : ∀ r ∈ (sampleWire 7).records, r.Spelled 7 := by decide
  refine ⟨⟨seven, (validate_of_compile seven).2.2.1.2 spelled⟩, four,
    ((validate_of_compile four).2.2.2 _).2 ?_⟩
  exact ⟨[], _, _, [2, 3, 3], 5, [6], rfl, nofun, rfl, by simp [sampleTokenizer], by decide, rfl⟩

end Trellis
