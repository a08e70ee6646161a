import Trellis.Mask
import Trellis.Text.Quoted

/-!
# Tokenizers and the calls made to them

A tokenizer is a pair of functions beside the size of its vocabulary, so that it answers by what it
is asked and by nothing else, and it refuses with errors of a type of its own.  What uses one runs
in `Metered`, which keeps the calls made, in order, beside the value; a call that fails is kept too.
-/

namespace Trellis

/-- Why the tokenizers given here refuse. -/
inductive Refusal where
  /-- A character that the vocabulary cannot spell. -/
  | foreignCharacter (c : Char)
  /-- A token that stands for no text. -/
  | noText (id : TokenId)
  | outsideVocabulary (id : TokenId)
  /-- A literal that is refused as a whole. -/
  | literalRefused
  /-- No piece of the vocabulary begins with this character. -/
  | noPiece (c : Char)
  deriving DecidableEq, Repr

namespace Refusal

def message : Refusal → String
  | foreignCharacter c => s!"character {Text.quotedChar c} is not in the vocabulary"
  | noText id => s!"token {id} has no text"
  | outsideVocabulary id => s!"token {id} is outside the vocabulary"
  | literalRefused => "literal refused"
  | noPiece c => s!"no token for code point {c.toNat}"

end Refusal

/-- A tokenizer whose refusals are of type `ρ`. -/
structure Tokenizer (ρ : Type := Refusal) where
  /-- The number of tokens; the ids are the numbers below it. -/
  vocabSize : Nat
  /-- The tokens of a text, between a start and an end token where asked for. -/
  tokenize : (text : String) → (start stop : Bool) → Except ρ (List TokenId)
  /-- The text of a sequence of tokens. -/
  detokenize : List TokenId → Except ρ String

/-- One call to a tokenizer. -/
inductive Call where
  | tokenize (text : String) (start stop : Bool)
  | detokenize (ids : List TokenId)
  deriving DecidableEq, Repr

namespace Call

def isTokenize : Call → Bool
  | tokenize .. => true
  | detokenize _ => false

def isDetokenize : Call → Bool
  | tokenize .. => false
  | detokenize _ => true

end Call

/-- A value beside the calls made for it. -/
structure Metered (α : Type u) where
  value : α
  calls : List Call

namespace Metered

protected def pure (a : α) : Metered α := ⟨a, []⟩

protected def bind (x : Metered α) (f : α → Metered β) : Metered β :=
  ⟨(f x.value).value, x.calls ++ (f x.value).calls⟩

instance : Monad Metered where
  pure := Metered.pure
  bind := Metered.bind

instance : LawfulMonad Metered := LawfulMonad.mk' Metered
  (by intro α x; cases x; simp [Functor.map, Metered.bind, Metered.pure])
  (by intro α β x f; simp [Bind.bind, Pure.pure, Metered.bind, Metered.pure])
  (by intro α β γ x f g; simp [Bind.bind, Metered.bind, List.append_assoc])

/-- How many calls asked for tokens. -/
def tokenizeCalls (x : Metered α) : Nat := x.calls.countP Call.isTokenize

/-- How many calls asked for a text. -/
def detokenizeCalls (x : Metered α) : Nat := x.calls.countP Call.isDetokenize

@[simp] theorem value_pure (a : α) : (pure a : Metered α).value = a := rfl

@[simp] theorem calls_pure (a : α) : (pure a : Metered α).calls = [] := rfl

@[simp] theorem value_bind (x : Metered α) (f : α → Metered β) :
    (x >>= f).value = (f x.value).value := rfl

@[simp] theorem calls_bind (x : Metered α) (f : α → Metered β) :
    (x >>= f).calls = x.calls ++ (f x.value).calls := rfl

@[simp] theorem value_map (f : α → β) (x : Metered α) : (f <$> x).value = f x.value := rfl

@[simp] theorem calls_map (f : α → β) (x : Metered α) : (f <$> x).calls = x.calls :=
  List.append_nil _

theorem value_mapM (f : α → Metered β) (xs : List α) :
    (xs.mapM f).value = xs.map fun x => (f x).value := by
  induction xs with
  | nil => rfl
  | cons x xs ih => simp [List.mapM_cons, ih]

/-- Work on every member of a list makes the calls for each, in order. -/
theorem calls_mapM (f : α → Metered β) (xs : List α) :
    (xs.mapM f).calls = xs.flatMap fun x => (f x).calls := by
  induction xs with
  | nil => rfl
  | cons x xs ih => simp [List.mapM_cons, ih]

end Metered

namespace Tokenizer

/-- One call for tokens. -/
def askTokens (t : Tokenizer ρ) (text : String) (start stop : Bool) :
    Metered (Except ρ (List TokenId)) :=
  ⟨t.tokenize text start stop, [.tokenize text start stop]⟩

/-- One call for a text. -/
def askText (t : Tokenizer ρ) (ids : List TokenId) : Metered (Except ρ String) :=
  ⟨t.detokenize ids, [.detokenize ids]⟩

end Tokenizer

end Trellis
