/-!
# Vocabulary masks

A mask has one bit for each token of a vocabulary.  It is applied to logits in place: those of the
same number keep what is allowed and have negative infinity for the rest, those of another number
are refused and stay as they were.
-/

namespace Trellis

/-- The place of a token in a vocabulary. -/
abbrev TokenId := UInt32

structure Mask where
  bits : List Bool
  deriving DecidableEq, Repr

namespace Mask

def allowAll (size : Nat) : Mask := ⟨List.replicate size true⟩

def allowNone (size : Nat) : Mask := ⟨List.replicate size false⟩

def size (m : Mask) : Nat := m.bits.length

def isEmpty (m : Mask) : Bool := m.bits.isEmpty

/-- The bit of a token, false beyond the vocabulary. -/
def isAllowed (m : Mask) (id : TokenId) : Bool := m.bits[id.toNat]?.getD false

def allowedCount (m : Mask) : Nat := m.bits.countP id

/-- The allowed tokens, ascending. -/
def allowedIds (m : Mask) : List TokenId :=
  m.bits.zipIdx.filterMap fun (bit, i) => if bit then some (UInt32.ofNat i) else none

/-- One bit changed, none where the token is beyond the vocabulary. -/
def set (m : Mask) (id : TokenId) (bit : Bool) : Mask := ⟨m.bits.set id.toNat bit⟩

/-- The number of logits differs from the size of the mask. -/
structure SizeMismatch where
  logits : Nat
  size : Nat
  deriving DecidableEq, Repr

namespace SizeMismatch

def message (e : SizeMismatch) : String := s!"logits length {e.logits} != vocab_size {e.size}"

end SizeMismatch

/-- The logit of a token that is not allowed. -/
def blocked : Float32 := -1.0 / 0.0

/-- The logits with those ruled out that have a bit which is not set. -/
def block : List Bool → List Float32 → List Float32
  | bit :: bits, x :: logits => (if bit then x else blocked) :: block bits logits
  | _, logits => logits

/-- The logits as they are left, with every token that is not allowed ruled out. -/
def apply (m : Mask) (logits : List Float32) : List Float32 × Except SizeMismatch Unit :=
  if logits.length = m.size then (block m.bits logits, .ok ())
  else (logits, .error ⟨logits.length, m.size⟩)

end Mask

end Trellis
