import Trellis.Tokenizer.Basic

/-!
# The character tokenizer

One token for each ASCII character and one for `é`, beside a start token without text, an end token
that cannot be decoded, and three tokens of several characters that no text is encoded to.
-/

namespace Trellis.Tokenizer.Character

def startId : TokenId := 0
def stopId : TokenId := 1
/-- The token of the first ASCII character; the others follow in order. -/
def firstAscii : TokenId := 2
def theId : TokenId := 130
def eAcuteId : TokenId := 131
def blankLineId : TokenId := 132
def worldId : TokenId := 133

/-- The number of tokens. -/
def size : Nat := 134

/-- The token of a character. -/
def encode (c : Char) : Except Refusal TokenId :=
  if c = 'é' then .ok eAcuteId
  else if c.toNat < 128 then .ok (UInt32.ofNat c.toNat + firstAscii)
  else .error (.foreignCharacter c)

/-- The text of a token. -/
def decode (id : TokenId) : Except Refusal (List Char) :=
  if id = startId then .ok []
  else if id = stopId then .error (.noText id)
  else if id = theId then .ok ['t', 'h', 'e']
  else if id = eAcuteId then .ok ['é']
  else if id = blankLineId then .ok ['\n', '\n']
  else if id = worldId then .ok [' ', 'w', 'o', 'r', 'l', 'd']
  else if id < theId then .ok [Char.ofNat (id - firstAscii).toNat]
  else .error (.outsideVocabulary id)

/-- The tokens of some characters, or the first refusal. -/
def encodeAll : List Char → Except Refusal (List TokenId)
  | [] => .ok []
  | c :: cs => do
    let id ← encode c
    let ids ← encodeAll cs
    return id :: ids

/-- The text of some tokens, or the first refusal. -/
def decodeAll : List TokenId → Except Refusal (List Char)
  | [] => .ok []
  | id :: ids => do
    let cs ← decode id
    let rest ← decodeAll ids
    return cs ++ rest

end Character

/-- The tokenizer with one token for each character. -/
def character : Tokenizer where
  vocabSize := Character.size
  tokenize text start stop := do
    let ids ← Character.encodeAll text.toList
    return (if start then [Character.startId] else []) ++ ids
      ++ (if stop then [Character.stopId] else [])
  detokenize ids := (Character.decodeAll ids).map String.ofList

end Trellis.Tokenizer
