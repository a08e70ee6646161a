import Trellis.Tokenizer.Basic

/-!
# Masks of a tokenizer

Two masks are found by asking the tokenizer.  The safe mask allows the tokens whose text is a single
newline or is printable ASCII throughout; it asks for the text of each token in turn.  The
single-character mask allows the tokens that spell one allowed character alone; it asks for the
tokens of each such character.
-/

namespace Trellis

/-- Letters, digits, punctuation, the space and the newline. -/
def isAllowedChar (c : Char) : Bool :=
  (decide ('!' ≤ c) && decide (c ≤ '~')) || c = ' ' || c = '\n'

/-- The allowed characters, ascending. -/
def alphabet : List Char := ((List.range 128).map Char.ofNat).filter isAllowedChar

namespace Mask

/-- A character outside printable ASCII. -/
def isOutside (c : Char) : Bool := decide (c.toNat < 32) || decide (126 < c.toNat)

/-- A text without characters, or with one outside printable ASCII. -/
def isUnprintable (text : String) : Bool := text.isEmpty || text.toList.any isOutside

/-- A text of one allowed character. -/
def isLoneAllowed (text : String) : Bool :=
  match text.toList with
  | [c] => isAllowedChar c
  | _ => false

/-- Whether the text of a token makes it safe. -/
def isSafe {ρ : Type} : Except ρ String → Bool
  | .ok text => !isUnprintable text || isLoneAllowed text
  | .error _ => false

/-- The number of tokens that have an id. -/
def idCount (size : Nat) : Nat := min size 0xFFFFFFFF

/-- Every token in `ids` is asked for and ruled out unless it is safe.  Asking may have any effect,
so a tokenizer may answer by what it was asked before. -/
def probeIds {m : Type → Type} [Monad m] (askText : List TokenId → m (Except ρ String)) :
    Mask → List Nat → m Mask
  | mask, [] => pure mask
  | mask, i :: rest => do
    let text ← askText [.ofNat i]
    probeIds askText (if isSafe text then mask else mask.set (.ofNat i) false) rest

/-- The mask of the tokens with a safe text, for a vocabulary of some size. -/
def safeBy {m : Type → Type} [Monad m] (size : Nat)
    (askText : List TokenId → m (Except ρ String)) : m Mask :=
  probeIds askText (allowAll size) (List.range (idCount size))

/-- The mask of the tokens with a safe text. -/
def safe (t : Tokenizer ρ) : Metered Mask := safeBy t.vocabSize t.askText

/-- Every character is asked for, and a token that spells it alone is allowed. -/
def probeChars (t : Tokenizer ρ) : Mask → List Char → Metered Mask
  | m, [] => pure m
  | m, c :: rest => do
    let ids ← t.askTokens (String.singleton c) false false
    probeChars t (match ids with
      | .ok [id] => m.set id true
      | _ => m) rest

/-- The mask of the tokens that spell one allowed character. -/
def singleChar (t : Tokenizer ρ) : Metered Mask :=
  probeChars t (allowNone t.vocabSize) alphabet

end Mask

/-- Both masks of one vocabulary. -/
structure VocabMasks where
  safe : Mask
  singleChar : Mask
  deriving DecidableEq, Repr

namespace VocabMasks

/-- The masks of a tokenizer, the safe one first. -/
def build (t : Tokenizer ρ) : Metered VocabMasks := do
  let safe ← Mask.safe t
  let singleChar ← Mask.singleChar t
  return { safe, singleChar }

/-- The size of the vocabulary that the masks cover. -/
def vocabSize (m : VocabMasks) : Nat := m.safe.size

end VocabMasks

end Trellis
