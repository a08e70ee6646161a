import Trellis.Proofs.Wire.Validation

/-!
# Which defect is reported

The validation passes through the uids first and through the records then, and it stops at the first
thing that is wrong.  So a uid that is repeated hides every other defect, and where the uids are
distinct the first record with a defect is named, with the first one it has (`Record.FirstDefect`).

What the validation asks of a vocabulary is that each mask has its size and each token is below it.
A mask has one size, and a token that is below one size is below every larger one; which of the two
decides hangs on whether the graph has a completion at all.
-/

namespace Trellis.Wire

variable {vocabSize : Nat}

/-! ## The first repeated uid -/

theorem repeatedUid?_eq_some_iff {seen : List String} {rs : List Record} {uid : String} :
    repeatedUid? seen rs = some uid
      ↔ ∃ before r after, rs = before ++ r :: after ∧ Fresh seen (before.map Record.uid)
        ∧ (r.uid ∈ seen ∨ r.uid ∈ before.map Record.uid) ∧ r.uid = uid := by
  -- a uid behind the first record is new when neither `seen` nor that record has it
  induction rs generalizing seen with
  | nil => simp [repeatedUid?]
  | cons r rs ih =>
    rw [repeatedUid?]
    constructor
    · split
      · next old =>
        intro here
        exact ⟨[], r, rs, rfl, fresh_nil seen, .inl old, Option.some.inj here⟩
      · next new =>
        rw [ih]
        rintro ⟨before, r', after, rfl, fresh, old, here⟩
        refine ⟨r :: before, r', after, rfl, fresh_cons_iff.2 ⟨new, fresh⟩, ?_, here⟩
        rw [List.mem_cons] at old
        rw [List.map_cons, List.mem_cons]
        tauto
    · rintro ⟨before, r', after, split, fresh, old, here⟩
      cases before with
      | nil =>
        cases split
        rw [if_pos (old.resolve_right List.not_mem_nil), here]
      | cons b before =>
        cases split
        obtain ⟨new, fresh⟩ := fresh_cons_iff.1 fresh
        rw [if_neg new, ih]
        refine ⟨before, r', after, rfl, fresh, ?_, here⟩
        rw [List.map_cons, List.mem_cons] at old
        rw [List.mem_cons]
        tauto

/-! ## The first defect of a record -/

namespace Record

/-- Nothing is wrong with a record among these uids. -/
structure Sound (uids : List String) (vocabSize : Nat) (r : Record) : Prop where
  linked : ∀ s ∈ r.successors, s ∈ uids
  counted : r.Counted vocabSize
  spelled : r.Spelled vocabSize

/-- The first thing that is wrong with a record: a successor, then a count, then a token. -/
inductive FirstDefect (uids : List String) (vocabSize : Nat) (r : Record) : Defect → Prop
  | successor {front back : List String} {s : String} (split : r.successors = front ++ s :: back)
      (known : ∀ x ∈ front, x ∈ uids) (unknown : s ∉ uids) :
      FirstDefect uids vocabSize r (.unknownSuccessor r.uid s)
  | arity {choices : List (List TokenId)} {threshold : Float} {width : UInt32}
      (linked : ∀ s ∈ r.successors, s ∈ uids) (task : r.task = .choose choices threshold width)
      (some : r.successors ≠ []) (other : r.successors.length ≠ choices.length) :
      FirstDefect uids vocabSize r (.chooseArity r.uid choices.length r.successors.length)
  | mask {c : Completion} (linked : ∀ s ∈ r.successors, s ∈ uids) (task : r.task = .complete c)
      (other : c.vocab.size ≠ vocabSize) :
      FirstDefect uids vocabSize r (.maskLength r.uid vocabSize c.vocab.size)
  | token {front back : List TokenId} {token : TokenId} (linked : ∀ s ∈ r.successors, s ∈ uids)
      (counted : r.Counted vocabSize) (split : r.tokens = front ++ token :: back)
      (inside : ∀ x ∈ front, x.toNat < vocabSize) (outside : vocabSize ≤ token.toNat) :
      FirstDefect uids vocabSize r (.tokenOutOfRange r.uid token vocabSize)

variable {uids : List String} {r : Record} {d : Defect}

theorem defect?_eq_none_iff : r.defect? uids vocabSize = none ↔ r.Sound uids vocabSize := by
  rw [defect?, Option.or_eq_none_iff, Option.or_eq_none_iff, successorDefect?_eq_none_iff,
    countDefect?_eq_none_iff, tokenDefect?_eq_none_iff]
  exact ⟨fun h => ⟨h.1, h.2.1, h.2.2⟩, fun h => ⟨h.linked, h.counted, h.spelled⟩⟩

theorem successorDefect?_eq_some_iff :
    r.successorDefect? uids = some d
      ↔ ∃ front s back, r.successors = front ++ s :: back ∧ (∀ x ∈ front, x ∈ uids)
        ∧ s ∉ uids ∧ d = .unknownSuccessor r.uid s := by
  rw [successorDefect?, map_find?_eq_some_iff]
  simp only [decide_eq_true_iff, decide_eq_false_iff_not, Decidable.not_not]

theorem countDefect?_eq_some_iff :
    r.countDefect? vocabSize = some d
      ↔ (∃ choices threshold width, r.task = .choose choices threshold width
          ∧ r.successors ≠ [] ∧ r.successors.length ≠ choices.length
          ∧ d = .chooseArity r.uid choices.length r.successors.length)
        ∨ ∃ c, r.task = .complete c ∧ c.vocab.size ≠ vocabSize
          ∧ d = .maskLength r.uid vocabSize c.vocab.size := by
  unfold countDefect?
  cases task : r.task with
  | text evaluate tokens => simp
  | choose choices threshold width => simp [and_assoc, eq_comm]
  | complete c => simp [eq_comm]

theorem defect?_eq_some_iff :
    r.defect? uids vocabSize = some d ↔ r.FirstDefect uids vocabSize d := by
  rw [defect?, Option.or_eq_some_iff, Option.or_eq_some_iff, successorDefect?_eq_none_iff,
    countDefect?_eq_none_iff, successorDefect?_eq_some_iff, countDefect?_eq_some_iff,
    tokenDefect?_eq_some_iff]
  constructor
  · rintro (⟨front, s, back, split, known, unknown, rfl⟩ | ⟨linked, count | ⟨counted, token⟩⟩)
    · exact .successor split known unknown
    · rcases count with ⟨choices, threshold, width, task, some, other, rfl⟩ | ⟨c, task, other, rfl⟩
      · exact .arity linked task some other
      · exact .mask linked task other
    · obtain ⟨front, token, back, split, inside, outside, rfl⟩ := token
      exact .token linked counted split inside outside
  · intro first
    cases first with
    | successor split known unknown => exact .inl ⟨_, _, _, split, known, unknown, rfl⟩
    | arity linked task some other =>
      exact .inr ⟨linked, .inl (.inl ⟨_, _, _, task, some, other, rfl⟩)⟩
    | mask linked task other => exact .inr ⟨linked, .inl (.inr ⟨_, task, other, rfl⟩)⟩
    | token linked counted split inside outside =>
      exact .inr ⟨linked, .inr ⟨counted, _, _, _, split, inside, outside, rfl⟩⟩

end Record

/-! ## The defect of a wire graph -/

section Precedence

variable {w : Wire}

theorem validate_eq_ok_iff_sound :
    w.validate vocabSize = .ok ()
      ↔ w.uids.Nodup ∧ ∀ r ∈ w.records, r.Sound w.uids vocabSize := by
  rw [validate_eq_ok_iff, defect?, Option.or_eq_none_iff, Option.map_eq_none_iff,
    repeatedUid?_eq_none_iff, fresh_iff_nodup, List.findSome?_eq_none_iff]
  simp only [Record.defect?_eq_none_iff]
  rfl

/-- A repeated uid is reported before all else. -/
theorem validate_of_repeatedUid? {uid : String} (h : repeatedUid? [] w.records = some uid) :
    w.validate vocabSize = .error (.duplicateUid uid) := by
  rw [validate_eq_error_iff, defect?, h]
  rfl

/-- Where the uids are distinct, the first record with a defect is named, with its first one. -/
theorem validate_eq_error_iff_firstDefect (distinct : w.uids.Nodup) {d : Defect} :
    w.validate vocabSize = .error d
      ↔ ∃ before r after, w.records = before ++ r :: after
        ∧ (∀ b ∈ before, b.Sound w.uids vocabSize) ∧ r.FirstDefect w.uids vocabSize d := by
  have none : repeatedUid? [] w.records = none :=
    repeatedUid?_eq_none_iff.2 (fresh_iff_nodup.2 distinct)
  rw [validate_eq_error_iff, defect?, none, Option.map_none, Option.none_or,
    List.findSome?_eq_some_iff]
  simp only [Record.defect?_eq_none_iff, Record.defect?_eq_some_iff]
  constructor
  · rintro ⟨before, r, after, split, first, sound⟩
    exact ⟨before, r, after, split, sound, first⟩
  · rintro ⟨before, r, after, split, sound, first⟩
    exact ⟨before, r, after, split, first, sound⟩

end Precedence

/-! ## The vocabularies that are accepted -/

namespace Record

variable {uids : List String} {r : Record} {vocabSize' : Nat}

/-- A mask covers one vocabulary. -/
theorem Sound.size_eq (complete : r.kind = .complete) (sound : r.Sound uids vocabSize)
    (sound' : r.Sound uids vocabSize') : vocabSize = vocabSize' := by
  have size := sound.counted
  have size' := sound'.counted
  obtain ⟨uid, successors, task⟩ := r
  cases task with
  | complete c => exact size.symm.trans size'
  | _ => cases complete

/-- Without a mask, what is sound for a vocabulary is sound for a larger one. -/
theorem Sound.mono (other : r.kind ≠ .complete) (le : vocabSize ≤ vocabSize')
    (sound : r.Sound uids vocabSize) : r.Sound uids vocabSize' := by
  refine ⟨sound.linked, ?_, fun token here => Nat.lt_of_lt_of_le (sound.spelled token here) le⟩
  have counted := sound.counted
  obtain ⟨uid, successors, task⟩ := r
  cases task with
  | complete c => exact absurd rfl other
  | _ => exact counted

end Record

/-- **What the validation accepts and what it reports.**  A wire graph is accepted when its uids are
distinct and every record is sound.  A repeated uid is reported before all else, the first one that
stands in front already; otherwise the first record with a defect is named, with its first one.
With a completion at most one size of the vocabulary is accepted; without, every size above an
accepted one is. -/
theorem validate_in_order (w : Wire) :
    (∀ vocabSize, w.validate vocabSize = .ok ()
      ↔ w.uids.Nodup ∧ ∀ r ∈ w.records, r.Sound w.uids vocabSize)
    ∧ (¬ w.uids.Nodup → ∃ before r after, w.records = before ++ r :: after
      ∧ (before.map Record.uid).Nodup ∧ r.uid ∈ before.map Record.uid
      ∧ ∀ vocabSize, w.validate vocabSize = .error (.duplicateUid r.uid))
    ∧ (w.uids.Nodup → ∀ vocabSize d, w.validate vocabSize = .error d
      ↔ ∃ before r after, w.records = before ++ r :: after
        ∧ (∀ b ∈ before, b.Sound w.uids vocabSize) ∧ r.FirstDefect w.uids vocabSize d)
    ∧ ((∃ r ∈ w.records, r.kind = .complete) → ∀ vocabSize vocabSize',
      w.validate vocabSize = .ok () → w.validate vocabSize' = .ok () → vocabSize = vocabSize')
    ∧ ((∀ r ∈ w.records, r.kind ≠ .complete) → ∀ vocabSize vocabSize', vocabSize ≤ vocabSize' →
      w.validate vocabSize = .ok () → w.validate vocabSize' = .ok ()) := by
  refine ⟨fun _ => validate_eq_ok_iff_sound, ?_, ?_, ?_, ?_⟩
  · intro repeats
    cases first : repeatedUid? [] w.records with
    | none => exact absurd (fresh_iff_nodup.1 (repeatedUid?_eq_none_iff.1 first)) repeats
    | some uid =>
      obtain ⟨before, r, after, split, fresh, old, rfl⟩ := repeatedUid?_eq_some_iff.1 first
      exact ⟨before, r, after, split, fresh_iff_nodup.1 fresh, old.resolve_left List.not_mem_nil,
        fun _ => validate_of_repeatedUid? first⟩
  · intro distinct vocabSize d
    exact validate_eq_error_iff_firstDefect distinct
  · rintro ⟨r, here, complete⟩ vocabSize vocabSize' ok ok'
    rw [validate_eq_ok_iff_sound] at ok ok'
    exact (ok.2 r here).size_eq complete (ok'.2 r here)
  · intro others vocabSize vocabSize' le ok
    rw [validate_eq_ok_iff_sound] at ok ⊢
    exact ⟨ok.1, fun r here => (ok.2 r here).mono (others r here) le⟩

/-- A literal that needs eight tokens. -/
def saying : Record := { uid := "say", successors := [], task := .text true [0, 7] }

/-- A choice of two with one continuation. -/
def picking (uid : String) : Record :=
  { uid, successors := ["say"], task := .choose [[1], [2]] 0.5 2 }

/-- A completion over eight tokens. -/
def filling : Record where
  uid := "fill"
  successors := ["say"]
  task := .complete
    { length := 4, stop := [3], vocab := .allowAll 8, threshold := 0.25, width := 1, beams := 1,
      ahead := 0, diversity := 1.0, repetition := 0.5 }

/-- The literal, and then the choice. -/
def pickingAfter (uid : String) : Wire := ⟨[saying, picking uid]⟩

/-- A uid that is repeated hides the count of its own record.  Otherwise the count is named, unless
a token in front of it is too large.  A completion fixes the vocabulary, a literal does not. -/
theorem validate_in_order_picking :
    (pickingAfter "say").validate 8 = .error (.duplicateUid "say")
    ∧ (pickingAfter "pick").validate 8 = .error (.chooseArity "pick" 2 1)
    ∧ (pickingAfter "pick").validate 7 = .error (.tokenOutOfRange "say" 7 7)
    ∧ (∀ n, (⟨[saying, filling]⟩ : Wire).validate n = .ok () → n = 8)
    ∧ ∀ n, 8 ≤ n → (⟨[saying]⟩ : Wire).validate n = .ok () := by
  have named := (validate_in_order (pickingAfter "pick")).2.2.1 (by decide)
  refine ⟨?_, (named 8 _).2 ?_, (named 7 _).2 ?_, ?_, ?_⟩
  · have repeats : ¬ (pickingAfter "say").uids.Nodup := by decide
    have same : ∀ r ∈ (pickingAfter "say").records, r.uid = "say" := by decide
    obtain ⟨before, r, after, split, _, _, reported⟩ :=
      (validate_in_order (pickingAfter "say")).2.1 repeats
    rw [reported, same r (by rw [split]; simp)]
  · have sound : saying.Sound (pickingAfter "pick").uids 8 := ⟨nofun, trivial, by decide⟩
    have linked : ∀ s ∈ (picking "pick").successors, s ∈ (pickingAfter "pick").uids := by decide
    exact ⟨[saying], picking "pick", [], rfl, by simpa using sound,
      .arity linked rfl (by decide) (by decide)⟩
  · have split : saying.tokens = [0] ++ 7 :: [] := rfl
    have inside : ∀ x ∈ ([0] : List TokenId), x.toNat < 7 := by
      rintro x here
      rw [List.mem_singleton.1 here]
      decide
    exact ⟨[], saying, [picking "pick"], rfl, nofun, .token nofun trivial split inside (by decide)⟩
  · intro n ok
    exact (validate_in_order ⟨[saying, filling]⟩).2.2.2.1 ⟨filling, by simp, rfl⟩ n 8 ok rfl
  · intro n le
    have literal : ∀ r ∈ [saying], r.kind ≠ .complete := by decide
    exact (validate_in_order ⟨[saying]⟩).2.2.2.2 literal 8 n le rfl

end Trellis.Wire
