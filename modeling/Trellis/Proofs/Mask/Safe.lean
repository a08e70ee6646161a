import Trellis.Proofs.Mask.Probing
import Trellis.Tokenizer.Pieces

/-!
# What the safe mask allows

A token stays allowed when its text is a single newline or is printable ASCII throughout and not
empty (`isSafe_iff`).  The test is written with two classes of characters, printable ones and
allowed ones, which differ in the newline alone; either way every character of a safe text is
allowed (`SafeText.allowed`).  Since each token with an id is asked for once and settles its own
bit, the safe mask has the bits that the texts of its tokens call for (`safe_of_answers`).
-/

namespace Trellis

/-! ## Characters and texts -/

/-- The allowed characters are printable ASCII and the newline. -/
theorem isAllowedChar_iff {c : Char} :
    isAllowedChar c = true ↔ Mask.isOutside c = false ∨ c = '\n' := by
  have low : '!' ≤ c ↔ 33 ≤ c.toNat := Iff.rfl
  have high : c ≤ '~' ↔ c.toNat ≤ 126 := Iff.rfl
  have space : c = ' ' ↔ c.toNat = 32 := Char.toNat_inj.symm
  simp only [isAllowedChar, Mask.isOutside, Bool.or_eq_true, Bool.and_eq_true, Bool.or_eq_false_iff,
    decide_eq_true_eq, decide_eq_false_iff_not, low, high, space]
  constructor
  · rintro ((printable | blank) | newline)
    · left; omega
    · left; omega
    · exact .inr newline
  · rintro (printable | newline)
    · left; omega
    · exact .inr newline

/-- An allowed character is no control character but the newline, and none beyond ASCII. -/
theorem bounds_of_isAllowedChar {c : Char} (h : isAllowedChar c = true) :
    c.toNat ≤ 126 ∧ (c.toNat < 32 → c = '\n') := by
  rcases isAllowedChar_iff.1 h with printable | rfl
  · simp only [Mask.isOutside, Bool.or_eq_false_iff, decide_eq_false_iff_not] at printable
    constructor
    · omega
    · intro control
      omega
  · decide

/-- Every character of the text is allowed. -/
def AllowedText (text : String) : Prop := ∀ c ∈ text.toList, isAllowedChar c = true

theorem allowedText_empty : AllowedText "" := nofun

theorem AllowedText.append {front back : String} (h : AllowedText front) (h' : AllowedText back) :
    AllowedText (front ++ back) := by
  intro c hc
  rw [String.toList_append, List.mem_append] at hc
  rcases hc with hc | hc
  · exact h c hc
  · exact h' c hc

theorem allowedText_join {texts : List String} (h : ∀ text ∈ texts, AllowedText text) :
    AllowedText (String.join texts) := by
  induction texts with
  | nil => exact allowedText_empty
  | cons text texts ih =>
    rw [List.forall_mem_cons] at h
    rw [String.join_cons]
    exact h.1.append (ih h.2)

/-- A single newline, or printable ASCII throughout and not empty. -/
def SafeText (text : String) : Prop :=
  text = "\n" ∨ text ≠ "" ∧ ∀ c ∈ text.toList, 32 ≤ c.toNat ∧ c.toNat ≤ 126

namespace Mask

theorem isOutside_eq_false_iff {c : Char} :
    isOutside c = false ↔ 32 ≤ c.toNat ∧ c.toNat ≤ 126 := by
  simp [isOutside]

theorem isUnprintable_eq_false_iff {text : String} :
    isUnprintable text = false
      ↔ text ≠ "" ∧ ∀ c ∈ text.toList, 32 ≤ c.toNat ∧ c.toNat ≤ 126 := by
  rw [isUnprintable, Bool.or_eq_false_iff, List.any_eq_false]
  simp only [Bool.not_eq_true, isOutside_eq_false_iff]
  simp

theorem isLoneAllowed_iff {text : String} :
    isLoneAllowed text = true ↔ ∃ c, text.toList = [c] ∧ isAllowedChar c = true := by
  unfold isLoneAllowed
  split
  · next c single => simp [single]
  · next other => simpa using fun c single => absurd single (other c)

/-- The exception for a lone character lets the newline through and nothing else. -/
theorem isSafe_ok_iff {text : String} :
    isSafe (.ok text : Except ρ String) = true ↔ SafeText text := by
  rw [isSafe, Bool.or_eq_true, Bool.not_eq_true', isUnprintable_eq_false_iff, isLoneAllowed_iff,
    SafeText]
  constructor
  · rintro (printable | ⟨c, single, allowed⟩)
    · exact .inr printable
    · rcases isAllowedChar_iff.1 allowed with inside | rfl
      · refine .inr ⟨?_, ?_⟩
        · rintro rfl
          cases single
        · rw [single]
          simpa [isOutside_eq_false_iff] using inside
      · exact .inl (String.toList_inj.1 single)
  · rintro (rfl | printable)
    · exact .inr ⟨'\n', rfl, rfl⟩
    · exact .inl printable

/-- A token is safe when it decodes, and to a safe text. -/
theorem isSafe_iff {answer : Except ρ String} :
    isSafe answer = true ↔ ∃ text, answer = .ok text ∧ SafeText text := by
  cases answer with
  | error cause => simp [isSafe]
  | ok text => simp [isSafe_ok_iff]

end Mask

theorem SafeText.allowed {text : String} (h : SafeText text) : AllowedText text := by
  intro c hc
  rcases h with rfl | ⟨_, printable⟩
  · cases List.mem_singleton.1 hc
    rfl
  · exact isAllowedChar_iff.2 (.inl (Mask.isOutside_eq_false_iff.2 (printable c hc)))

namespace Mask

/-! ## The bits of the mask -/

section Bits

variable {t : Tokenizer ρ} (small : t.vocabSize ≤ 0xFFFFFFFF)

include small

theorem bits_safe_of_le :
    (safe t).value.bits
      = (List.range t.vocabSize).map fun i => isSafe (t.detokenize [.ofNat i]) := by
  rw [bits_safe, idCount, Nat.min_eq_left small]
  simp

theorem isAllowed_safe_iff {id : TokenId} :
    (safe t).value.isAllowed id = true
      ↔ id.toNat < t.vocabSize ∧ isSafe (t.detokenize [id]) = true := by
  rw [isAllowed, bits_safe_of_le small]
  by_cases inside : id.toNat < t.vocabSize <;> simp [inside]

/-- An allowed token decodes, and to allowed characters. -/
theorem exists_text_of_isAllowed {id : TokenId} (allowed : (safe t).value.isAllowed id = true) :
    ∃ text, t.detokenize [id] = .ok text ∧ AllowedText text := by
  obtain ⟨_, fine⟩ := (isAllowed_safe_iff small).1 allowed
  obtain ⟨text, decodes, plain⟩ := isSafe_iff.1 fine
  exact ⟨text, decodes, plain.allowed⟩

end Bits

/-- **What the safe mask allows.**  However the tokenizer is asked, the mask has one bit for each
answer, which says whether the answer is a safe text, and each token is asked for once, in ascending
order.  For a tokenizer that answers by the tokens alone this makes every bit a matter of its own
token: whatever another token is decoded to, or fails with, changes the bit of that one only. -/
theorem safe_of_answers {t : Tokenizer ρ} (small : t.vocabSize ≤ 0xFFFFFFFF) :
    (∀ (m : Type → Type) [Monad m] [LawfulMonad m]
      (askText : List TokenId → m (Except ρ String)),
      safeBy t.vocabSize askText
        = (fun answers => ⟨answers.map isSafe⟩)
          <$> (List.range t.vocabSize).mapM fun i => askText [.ofNat i])
    ∧ (∀ answer : Except ρ String,
      isSafe answer = true ↔ ∃ text, answer = .ok text ∧ SafeText text)
    ∧ (safe t).value.size = t.vocabSize
    ∧ (∀ i < t.vocabSize, (safe t).value.bits[i]? = some true
      ↔ ∃ text, t.detokenize [.ofNat i] = .ok text ∧ SafeText text)
    ∧ (safe t).calls = (List.range t.vocabSize).map (fun i => .detokenize [.ofNat i])
    ∧ (safe t).tokenizeCalls = 0
    ∧ ∀ (other : Tokenizer ρ) (i : Nat), other.vocabSize = t.vocabSize →
        (∀ j < t.vocabSize, j ≠ i → other.detokenize [.ofNat j] = t.detokenize [.ofNat j]) →
        ∀ j ≠ i, (safe other).value.bits[j]? = (safe t).value.bits[j]? := by
  have calls : (safe t).calls
      = (List.range t.vocabSize).map fun i => .detokenize [.ofNat i] := by
    rw [calls_safe, idCount, Nat.min_eq_left small]
  refine ⟨fun m _ _ askText => safeBy_of_le askText small, fun answer => isSafe_iff, size_safe t,
    ?_, calls, ?_, ?_⟩
  · intro i inside
    rw [bits_safe_of_le small, ← isSafe_iff]
    simp [inside]
  · rw [Metered.tokenizeCalls, calls, List.countP_map, List.countP_eq_zero]
    exact fun i _ => Bool.false_ne_true
  · intro other i same elsewhere j apart
    rw [bits_safe_of_le small, bits_safe_of_le (same ▸ small), same]
    by_cases inside : j < t.vocabSize
    · simp [inside, elsewhere j inside apart]
    · simp [inside]

/-- A vocabulary with a word, a token without text, a newline, a tab, a blank line and an accent. -/
def mixed : Tokenizer :=
  Tokenizer.Pieces.tokenizer ⟨[some "the", none, some "\n", some "\t", some "\n\n", some "é"], []⟩

theorem safe_of_answers_mixed :
    mixed.vocabSize ≤ 0xFFFFFFFF
    ∧ (safe mixed).calls = (List.range 6).map (fun i => .detokenize [.ofNat i])
    ∧ (safe mixed).value.bits[2]? = some true
    ∧ ¬ (safe mixed).value.bits[4]? = some true := by
  have small : mixed.vocabSize ≤ 0xFFFFFFFF := by decide
  obtain ⟨-, -, -, bits, calls, -⟩ := safe_of_answers small
  refine ⟨small, calls, (bits 2 (by decide)).2 ⟨"\n", rfl, .inl rfl⟩, ?_⟩
  rw [bits 4 (by decide)]
  rintro ⟨text, decodes, plain⟩
  cases decodes
  revert plain
  simp [SafeText]

/-- Answers that count the questions and refuse the first. -/
def lateAnswer (_ : List TokenId) : StateM Nat (Except Refusal String) := do
  let asked ← getModify (· + 1)
  return if asked = 0 then .error .literalRefused else .ok "a"

example : (safeBy 3 lateAnswer).run 0 = (⟨[false, true, true]⟩, 3) := rfl

end Mask

end Trellis
