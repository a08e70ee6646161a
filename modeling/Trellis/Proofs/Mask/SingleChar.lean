import Trellis.Proofs.Mask.Safe
import Trellis.Proofs.Tokenizer.Character
import Trellis.Tokenizer.Pieces

/-!
# What the single-character mask allows

The mask is built by asking for tokens, never for texts, so it allows the tokens of the vocabulary
that are the whole spelling of an allowed character (`isAllowed_singleChar_iff`).  What such a token
decodes to is the tokenizer's affair: the mask keeps its promise of one allowed character a token
for the tokenizers that keep it themselves, and for no others (`lone_of_singleChar`).
-/

namespace Trellis.Mask

/-- The token is the whole spelling of a character. -/
def Spells (t : Tokenizer ρ) (c : Char) (id : TokenId) : Prop :=
  t.tokenize (String.singleton c) false false = .ok [id]

/-- The text of the token is one allowed character. -/
def Lone (t : Tokenizer ρ) (id : TokenId) : Prop :=
  ∃ c, isAllowedChar c = true ∧ t.detokenize [id] = .ok (String.singleton c)

theorem mem_alphabet {c : Char} : c ∈ alphabet ↔ isAllowedChar c = true := by
  rw [alphabet, List.mem_filter, and_iff_right_iff_imp]
  intro allowed
  have small : c.toNat < 128 := Nat.lt_of_le_of_lt (bounds_of_isAllowedChar allowed).1 (by decide)
  exact List.mem_map.2 ⟨c.toNat, List.mem_range.2 small, Char.ofNat_toNat c⟩

/-- Each character that is asked for allows the token that is its whole spelling, where there is
one and the vocabulary has it. -/
theorem isAllowed_probeChars_iff {t : Tokenizer ρ} {m : Mask} {cs : List Char} {id : TokenId} :
    (probeChars t m cs).value.isAllowed id = true
      ↔ m.isAllowed id = true ∨ id.toNat < m.size ∧ ∃ c ∈ cs, Spells t c id := by
  induction cs generalizing m with
  | nil => simp [probeChars]
  | cons c cs ih =>
    simp only [List.mem_cons, or_and_right, exists_or, exists_eq_left]
    simp only [probeChars, Metered.value_bind, Tokenizer.askTokens]
    rw [ih]
    unfold Spells
    split
    · next found spelled =>
      rw [size_set, isAllowed_set_iff, spelled]
      constructor
      · rintro ((before | ⟨rfl, inside⟩) | ⟨inside, later⟩)
        · exact .inl before
        · exact .inr ⟨inside, .inl rfl⟩
        · exact .inr ⟨inside, .inr later⟩
      · rintro (before | ⟨inside, first | later⟩)
        · exact .inl (.inl before)
        · cases first
          exact .inl (.inr ⟨rfl, inside⟩)
        · exact .inr ⟨inside, later⟩
    · next other =>
      have first : ¬ t.tokenize (String.singleton c) false false = .ok [id] := other id
      simp only [first, false_or]

/-- **What the single-character mask allows.** -/
theorem isAllowed_singleChar_iff {t : Tokenizer ρ} {id : TokenId} :
    (singleChar t).value.isAllowed id = true
      ↔ id.toNat < t.vocabSize ∧ ∃ c, isAllowedChar c = true ∧ Spells t c id := by
  rw [singleChar, isAllowed_probeChars_iff]
  simp only [isAllowed_allowNone, Bool.false_eq_true, false_or, size_allowNone, mem_alphabet]

/-- **When every token of the single-character mask is one allowed character.**  The mask allows the
whole spellings of the allowed characters that the vocabulary has.  So each of its tokens decodes to
one allowed character exactly when each of these spellings does; and where the tokenizer decodes
them to what they spell, each token decodes to a character that it spells. -/
theorem lone_of_singleChar (t : Tokenizer ρ) :
    (∀ id, (singleChar t).value.isAllowed id = true
      ↔ id.toNat < t.vocabSize ∧ ∃ c, isAllowedChar c = true ∧ Spells t c id)
    ∧ ((∀ id, (singleChar t).value.isAllowed id = true → Lone t id)
      ↔ ∀ c id, isAllowedChar c = true → Spells t c id → id.toNat < t.vocabSize → Lone t id)
    ∧ ((∀ c id, isAllowedChar c = true → Spells t c id → id.toNat < t.vocabSize →
        t.detokenize [id] = .ok (String.singleton c)) →
      ∀ id, (singleChar t).value.isAllowed id = true → ∃ c, isAllowedChar c = true
        ∧ Spells t c id ∧ t.detokenize [id] = .ok (String.singleton c)) := by
  refine ⟨fun id => isAllowed_singleChar_iff, ⟨?_, ?_⟩, ?_⟩
  · intro lone c id allowed spells inside
    exact lone id (isAllowed_singleChar_iff.2 ⟨inside, c, allowed, spells⟩)
  · intro lone id marked
    obtain ⟨inside, c, allowed, spells⟩ := isAllowed_singleChar_iff.1 marked
    exact lone c id allowed spells inside
  · intro decodes id marked
    obtain ⟨inside, c, allowed, spells⟩ := isAllowed_singleChar_iff.1 marked
    exact ⟨c, allowed, spells, decodes c id allowed spells inside⟩

/-- The character tokenizer keeps the promise: it decodes what it spells. -/
theorem lone_of_isAllowed_character {id : TokenId}
    (h : (singleChar .character).value.isAllowed id = true) : Lone .character id := by
  obtain ⟨_, c, allowed, spells⟩ := isAllowed_singleChar_iff.1 h
  exact ⟨c, allowed, Tokenizer.Character.detokenize_of_tokenize spells⟩

/-- A tokenizer that spells what it does not know by a token of its own. -/
def fallback : Tokenizer :=
  Tokenizer.Pieces.tokenizer ⟨[some "<unk>", some "a"], [("~", some [0])]⟩

/-- The mask may allow a token of several characters. -/
theorem not_lone_of_singleChar :
    ¬ ∀ (t : Tokenizer) (id : TokenId), (singleChar t).value.isAllowed id = true → Lone t id := by
  intro all
  have marked : (singleChar fallback).value.isAllowed 0 = true :=
    isAllowed_singleChar_iff.2 ⟨by decide, '~', by decide, rfl⟩
  obtain ⟨c, _, decoded⟩ := all fallback 0 marked
  have text : fallback.detokenize [0] = .ok "<unk>" := rfl
  have lengths := congrArg String.length (Except.ok.inj (text.symm.trans decoded))
  rw [String.length_singleton] at lengths
  cases lengths

end Trellis.Mask
