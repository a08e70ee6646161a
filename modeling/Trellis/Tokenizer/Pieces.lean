import Trellis.Tokenizer.Basic

/-!
# Tokenizers given by a table of pieces

Each token is a piece of text, or has none.  A text is encoded from the left by the longest piece
that it begins with, the lowest id among equal ones, unless a table of whole literals says
otherwise.
-/

namespace Trellis.Tokenizer

/-- The pieces of a vocabulary by id. -/
structure Pieces where
  pieces : List (Option String)
  /-- Literals with an encoding of their own, none where they are refused. -/
  literals : List (String × Option (List TokenId))

namespace Pieces

/-- The longest piece that a text begins with, as its id and its length. -/
def longest? (cs : List Char) : (id : Nat) → List (Option String) → Option (TokenId × Nat)
  | _, [] => none
  | id, piece :: rest =>
    let later := longest? cs (id + 1) rest
    match piece.map String.toList with
    | some (c :: p) =>
      if (c :: p).isPrefixOf cs then
        match later with
        | some (other, n) =>
          if p.length + 1 < n then some (other, n) else some (.ofNat id, p.length + 1)
        | none => some (.ofNat id, p.length + 1)
      else later
    | _ => later

/-- The tokens of a text of which `covered` characters belong to the token before. -/
def encodeFrom (p : Pieces) : (covered : Nat) → List Char → Except Refusal (List TokenId)
  | _, [] => .ok []
  | covered + 1, _ :: cs => p.encodeFrom covered cs
  | 0, c :: cs =>
    match longest? (c :: cs) 0 p.pieces with
    | none => .error (.noPiece c)
    | some (id, n) => do
      let ids ← p.encodeFrom (n - 1) cs
      return id :: ids

/-- The tokens of a literal, by the table of literals first. -/
def encode (p : Pieces) (text : String) : Except Refusal (List TokenId) :=
  match p.literals.lookup text with
  | some (some ids) => .ok ids
  | some none => .error .literalRefused
  | none => p.encodeFrom 0 text.toList

/-- The text of one token. -/
def decode (p : Pieces) (id : TokenId) : Except Refusal String :=
  match p.pieces[id.toNat]? with
  | some (some text) => .ok text
  | some none => .error (.noText id)
  | none => .error (.outsideVocabulary id)

/-- The text of some tokens, or the first refusal. -/
def decodeAll (p : Pieces) : List TokenId → Except Refusal String
  | [] => .ok ""
  | id :: ids => do
    let text ← p.decode id
    let rest ← p.decodeAll ids
    return text ++ rest

/-- The tokenizer of a table; the start token is the first piece and the end token the second. -/
def tokenizer (p : Pieces) : Tokenizer where
  vocabSize := p.pieces.length
  tokenize text start stop := do
    let ids ← p.encode text
    return (if start then [0] else []) ++ ids ++ (if stop then [1] else [])
  detokenize := p.decodeAll

end Pieces

end Trellis.Tokenizer
