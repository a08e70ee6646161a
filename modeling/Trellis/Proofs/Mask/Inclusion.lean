import Mathlib.Data.List.Nodup
import Trellis.Proofs.Mask.SingleChar

/-!
# The single-character mask within the safe one

The two masks are found in opposite directions, one by asking for tokens and the other by asking for
texts, and they need not agree.  The single-character mask hears of a character only through the
token that spells it alone (`sole?`); a character without one is as good as not asked for
(`probeChars_filter`).  Where the tokenizer decodes each of these tokens to its character, two
characters never share one, so there are as many allowed tokens as characters that have one
(`allowedIds_perm`); and the text of each is a single allowed character, which is safe, so the safe
mask allows them all (`singleChar_within_safe`).
-/

namespace Trellis

theorem nodup_alphabet : alphabet.Nodup := by
  have place : ∀ n < 128, (Char.ofNat n).toNat = n := by decide +kernel
  refine List.Nodup.filter _ (List.Nodup.map_on ?_ List.nodup_range)
  intro i hi j hj same
  rw [← place i (List.mem_range.1 hi), same, place j (List.mem_range.1 hj)]

/-- A text of one allowed character is safe; if it is not printable, it is the newline. -/
theorem safeText_singleton {c : Char} (allowed : isAllowedChar c = true) :
    SafeText (String.singleton c) := by
  rcases isAllowedChar_iff.1 allowed with inside | rfl
  · refine .inr ⟨by simp, ?_⟩
    simpa using Mask.isOutside_eq_false_iff.1 inside
  · exact .inl rfl

namespace Mask

/-- The token that is the whole spelling of a character, where the vocabulary has it. -/
def sole? (t : Tokenizer ρ) (c : Char) : Option TokenId :=
  match t.tokenize (String.singleton c) false false with
  | .ok [id] => if id.toNat < t.vocabSize then some id else none
  | _ => none

section Sole

variable {t : Tokenizer ρ}

theorem sole?_eq_some_iff {c : Char} {id : TokenId} :
    sole? t c = some id ↔ Spells t c id ∧ id.toNat < t.vocabSize := by
  unfold sole? Spells
  split
  · next found spelled =>
    rw [spelled]
    constructor
    · intro h
      split at h
      · next inside =>
        cases h
        exact ⟨rfl, inside⟩
      · cases h
    · rintro ⟨same, inside⟩
      cases same
      exact if_pos inside
  · next other => exact ⟨nofun, fun h => absurd h.1 (other id)⟩

/-- A character whose tokens are refused, are several, or are one that the vocabulary lacks, changes
no bit. -/
theorem probeChars_filter {m : Mask} (covers : m.size = t.vocabSize) (cs : List Char) :
    (probeChars t m cs).value
      = (probeChars t m (cs.filter fun c => (sole? t c).isSome)).value := by
  induction cs generalizing m with
  | nil => rfl
  | cons c cs ih =>
    rw [List.filter_cons]
    split
    · simp only [probeChars, Metered.value_bind]
      apply ih
      split
      · rw [size_set, covers]
      · exact covers
    · next none =>
      rw [← ih covers, probeChars, Metered.value_bind]
      simp only [Tokenizer.askTokens]
      split
      · next id spelled =>
        -- the token is beyond the vocabulary, so there is no bit to set
        have outside : ¬ id.toNat < t.vocabSize := by
          intro inside
          apply none
          rw [sole?_eq_some_iff.2 ⟨spelled, inside⟩]
          rfl
        have beyond : m.bits.length ≤ id.toNat := by
          show m.size ≤ id.toNat
          omega
        rw [set, List.set_eq_of_length_le beyond]
      · rfl

theorem mem_soles_iff {id : TokenId} :
    id ∈ alphabet.filterMap (sole? t) ↔ (singleChar t).value.isAllowed id = true := by
  rw [List.mem_filterMap, isAllowed_singleChar_iff]
  simp only [mem_alphabet, sole?_eq_some_iff]
  constructor
  · rintro ⟨c, allowed, spells, inside⟩
    exact ⟨inside, c, allowed, spells⟩
  · rintro ⟨inside, c, allowed, spells⟩
    exact ⟨c, allowed, spells, inside⟩

theorem numbered_singleChar (small : t.vocabSize ≤ 0xFFFFFFFF) :
    (singleChar t).value.size ≤ UInt32.size := by
  rw [size_singleChar]
  exact Nat.le_trans small (by decide)

section Decoded

variable (decodes : ∀ c id, isAllowedChar c = true → Spells t c id → id.toNat < t.vocabSize →
  t.detokenize [id] = .ok (String.singleton c))

include decodes

/-- Two characters never share a token, since it is decoded to both. -/
theorem nodup_soles : (alphabet.filterMap (sole? t)).Nodup := by
  rw [List.Nodup, List.pairwise_filterMap]
  refine nodup_alphabet.imp_of_mem fun {c c'} hc hc' apart id first id' second => ?_
  rintro rfl
  rw [sole?_eq_some_iff] at first second
  have text := decodes c id (mem_alphabet.1 hc) first.1 first.2
  have text' := decodes c' id (mem_alphabet.1 hc') second.1 second.2
  rw [text] at text'
  exact apart (String.singleton_inj.1 (Except.ok.inj text'))

variable (small : t.vocabSize ≤ 0xFFFFFFFF)

include small

/-- The allowed tokens are those of the characters that have one, in another order. -/
theorem allowedIds_perm :
    (singleChar t).value.allowedIds.Perm (alphabet.filterMap (sole? t)) := by
  have numbered := numbered_singleChar small
  rw [List.perm_ext_iff_of_nodup (nodup_allowedIds numbered) (nodup_soles decodes)]
  intro id
  rw [mem_allowedIds_iff numbered, mem_soles_iff]

theorem allowedCount_singleChar :
    (singleChar t).value.allowedCount = alphabet.countP fun c => (sole? t c).isSome := by
  rw [← length_allowedIds, (allowedIds_perm decodes small).length_eq,
    List.length_filterMap_eq_countP]

theorem isAllowed_safe_of_singleChar {id : TokenId}
    (allowed : (singleChar t).value.isAllowed id = true) :
    (safe t).value.isAllowed id = true := by
  obtain ⟨inside, c, plain, spells⟩ := isAllowed_singleChar_iff.1 allowed
  rw [isAllowed_safe_iff small]
  exact ⟨inside, isSafe_iff.2 ⟨_, decodes c id plain spells inside, safeText_singleton plain⟩⟩

end Decoded

end Sole

/-- **The single-character mask, its size and its place in the safe mask.**  A bit is set exactly
when its token is the whole spelling of an allowed character, and the mask would be the same if only
the characters with such a token were asked for.  Where the tokenizer decodes each of these tokens
to its character, the safe mask allows all of them, and they are as many as the characters. -/
theorem singleChar_within_safe {t : Tokenizer ρ} (small : t.vocabSize ≤ 0xFFFFFFFF) :
    (singleChar t).value.size = t.vocabSize
    ∧ (∀ i < t.vocabSize, (singleChar t).value.bits[i]? = some true
      ↔ ∃ c, isAllowedChar c = true
        ∧ t.tokenize (String.singleton c) false false = .ok [.ofNat i])
    ∧ (singleChar t).value
      = (probeChars t (allowNone t.vocabSize) (alphabet.filter fun c => (sole? t c).isSome)).value
    ∧ ((∀ c id, isAllowedChar c = true → Spells t c id → id.toNat < t.vocabSize →
          t.detokenize [id] = .ok (String.singleton c)) →
        (∀ id, (singleChar t).value.isAllowed id = true → (safe t).value.isAllowed id = true)
        ∧ (singleChar t).value.allowedCount = alphabet.countP fun c => (sole? t c).isSome) := by
  refine ⟨size_singleChar t, ?_, probeChars_filter (size_allowNone _) alphabet, fun decodes =>
    ⟨fun id => isAllowed_safe_of_singleChar decodes small, allowedCount_singleChar decodes small⟩⟩
  intro i inside
  have place : (UInt32.ofNat i).toNat = i := by
    apply toNat_ofNat_of_lt (numbered_singleChar small)
    rw [size_singleChar]
    exact inside
  have bit : (singleChar t).value.isAllowed (.ofNat i) = true ↔ _ := isAllowed_singleChar_iff
  rw [isAllowed_iff, place] at bit
  rw [bit]
  exact and_iff_right inside

/-- The character tokenizer has a token for each of the 96 allowed characters. -/
theorem singleChar_within_safe_character :
    Tokenizer.character.vocabSize ≤ 0xFFFFFFFF
    ∧ (∀ c id, isAllowedChar c = true → Spells .character c id →
        id.toNat < Tokenizer.character.vocabSize →
        Tokenizer.character.detokenize [id] = .ok (String.singleton c))
    ∧ (∀ id, (singleChar .character).value.isAllowed id = true →
        (safe .character).value.isAllowed id = true)
    ∧ (singleChar .character).value.allowedCount = 96 := by
  have small : Tokenizer.character.vocabSize ≤ 0xFFFFFFFF := by decide
  have decodes : ∀ c id, isAllowedChar c = true → Spells .character c id →
      id.toNat < Tokenizer.character.vocabSize →
      Tokenizer.character.detokenize [id] = .ok (String.singleton c) := by
    intro c id _ spells _
    exact Tokenizer.Character.detokenize_of_tokenize spells
  have characters : (alphabet.countP fun c => (sole? .character c).isSome) = 96 := by
    decide +kernel
  obtain ⟨-, -, -, within⟩ := singleChar_within_safe small
  obtain ⟨inside, count⟩ := within decodes
  exact ⟨small, decodes, inside, count.trans characters⟩

end Mask

end Trellis
