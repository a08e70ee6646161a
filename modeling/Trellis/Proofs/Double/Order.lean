import Trellis.Double

/-!
# The total order of doubles

`totalKey` gives every double a place of its own (`totalKey_injective`).  Of two doubles that
compare as numbers the lesser one has the lower place (`totalKey_lt_of_lt`), and what is not a
number lies beyond infinity (`unpack_eq_notANumber_iff`).  A comparison looks at what the bits
unpack to, a place at the bits themselves, so the bits below the sign are first recovered from the
unpacked form (`unpacks`): the larger power of two has the larger pattern, and of two significands
of one power the larger one has.
-/

namespace Trellis.Double

open Float.Model UnpackedFloat

/-! ## Places and bits -/

theorem toNat_bits (x : Double) :
    x.bits.toNat = (if x.isNegative then Binary.signBit else 0) + x.magnitude := by
  have bound := x.bits.toNat_lt
  unfold isNegative magnitude Binary.signBit
  by_cases h : 0x8000000000000000 ≤ x.bits.toNat
  · rw [if_pos (by simpa using h)]
    omega
  · rw [if_neg (by simpa using h)]
    omega

theorem magnitude_lt (x : Double) : x.magnitude < Binary.signBit := Nat.mod_lt _ (by decide)

/-- The place of a double by its sign. -/
theorem totalKey_cases (x : Double) :
    (x.isNegative = true ∧ x.totalKey = -(x.magnitude : Int) - 1)
      ∨ (x.isNegative = false ∧ x.totalKey = x.magnitude) := by
  unfold totalKey
  cases x.isNegative <;> simp

/-- Doubles that share a place are the same double. -/
theorem totalKey_injective {x y : Double} (h : x.totalKey = y.totalKey) : x = y := by
  have bits : x.bits.toNat = y.bits.toNat := by
    rw [toNat_bits, toNat_bits]
    rcases totalKey_cases x with ⟨sx, kx⟩ | ⟨sx, kx⟩ <;>
      rcases totalKey_cases y with ⟨sy, ky⟩ | ⟨sy, ky⟩ <;> rw [sx, sy] <;> omega
  obtain ⟨b⟩ := x
  obtain ⟨c⟩ := y
  exact congrArg Double.mk (UInt64.toNat_inj.1 bits)

/-! ## The unpacked form -/

/-- The sign of a double. -/
def sign (x : Double) : Sign := if x.isNegative then .negative else .positive

/-- The bits of a double as the unpacking takes them. -/
def word (x : Double) : BitVec Format.binary64.numBits := x.bits.toBitVec

/-- What a double stands for. -/
def unpack (x : Double) : UnpackedFloat := UnpackedFloat.unpack .binary64 x.word

/-- Doubles compare as numbers: nothing is less than what is not a number, or greater. -/
instance : LT Double := ⟨fun x y => UnpackedFloat.lt x.unpack y.unpack = true⟩

instance (x y : Double) : Decidable (x < y) :=
  inferInstanceAs (Decidable (UnpackedFloat.lt x.unpack y.unpack = true))

theorem ofFloat_lt_iff {x y : Float} : ofFloat x < ofFloat y ↔ x < y :=
  ⟨decide_eq_true, of_decide_eq_true⟩

/-- Where the bits below the sign of a double stand, by what the double unpacks to.  A significand
has 52 bits below the leading one. -/
inductive Unpacks (bits : Nat) (sign : Sign) : UnpackedFloat → Prop where
  | zero (pattern : bits = 0) : Unpacks bits sign (.zero sign)
  | finite (m : Nat) (e : Int) (pos : 0 < m) (low : -1074 ≤ e) (high : e ≤ 971)
      (bound : m < 0x20000000000000) (leading : e = -1074 ∨ 0x10000000000000 ≤ m)
      (pattern : (bits : Int) = (e + 1074) * 0x10000000000000 + m) :
      Unpacks bits sign (.finite sign m e pos)
  | infinity (pattern : bits = Binary.infinityBits) : Unpacks bits sign (.infinity sign)
  | notANumber (pattern : Binary.infinityBits < bits) : Unpacks bits sign .notANumber

section Fields

variable (x : Double)

theorem toNat_unpackMantissa : (unpackMantissa x.word).toNat = x.magnitude % 0x10000000000000 := by
  have low : (unpackMantissa x.word).toNat = x.bits.toNat >>> 0 % 2 ^ 52 :=
    BitVec.extractLsb_toNat 51 0 x.word
  rw [low, Nat.shiftRight_zero, magnitude, Binary.signBit]
  omega

theorem toNat_unpackExponent : (unpackExponent x.word).toNat = x.magnitude / 0x10000000000000 := by
  have high : (unpackExponent x.word).toNat = x.bits.toNat >>> 52 % 2 ^ 11 :=
    BitVec.extractLsb_toNat 62 52 x.word
  rw [high, Nat.shiftRight_eq_div_pow, magnitude, Binary.signBit]
  omega

theorem ofBitVec_unpackSign : Sign.ofBitVec (unpackSign x.word) = x.sign := by
  have bound := x.bits.toNat_lt
  have top : (unpackSign x.word).toNat = x.bits.toNat >>> 63 % 2 ^ 1 :=
    BitVec.extractLsb_toNat 63 63 x.word
  have positive : unpackSign x.word = 0#1 ↔ ¬ 0x8000000000000000 ≤ x.bits.toNat := by
    rw [← BitVec.toNat_inj, top, Nat.shiftRight_eq_div_pow]
    change _ = 0 ↔ _
    omega
  unfold Sign.ofBitVec sign isNegative Binary.signBit
  by_cases h : 0x8000000000000000 ≤ x.bits.toNat
  · rw [if_neg (not_not_intro h ∘ positive.1), if_pos (by simpa using h)]
  · rw [if_pos (positive.2 h), if_neg (by simpa using h)]

theorem unpackExponent_eq_ones_iff :
    unpackExponent x.word = -1#_ ↔ x.magnitude / 0x10000000000000 = 2047 := by
  rw [← BitVec.toNat_inj, toNat_unpackExponent]
  rfl

theorem unpackExponent_eq_zero_iff :
    unpackExponent x.word = 0#_ ↔ x.magnitude / 0x10000000000000 = 0 := by
  rw [← BitVec.toNat_inj, toNat_unpackExponent]
  rfl

theorem unpackMantissa_eq_zero_iff :
    unpackMantissa x.word = 0#_ ↔ x.magnitude % 0x10000000000000 = 0 := by
  rw [← BitVec.toNat_inj, toNat_unpackMantissa]
  rfl

/-- The four forms of a double, by its exponent and the rest of its significand. -/
theorem unpacks : Unpacks x.magnitude x.sign x.unpack := by
  have mantissa := toNat_unpackMantissa x
  have exponent := toNat_unpackExponent x
  have whole := magnitude_lt x
  have bias : (Format.binary64.exponentBias : Int) = 1023 := rfl
  have top : Binary.infinityBits = 2047 * 0x10000000000000 := rfl
  unfold Binary.signBit at whole
  unfold unpack UnpackedFloat.unpack
  dsimp only
  rw [ofBitVec_unpackSign]
  by_cases ones : x.magnitude / 0x10000000000000 = 2047
  · rw [if_pos ((unpackExponent_eq_ones_iff x).2 ones)]
    by_cases rest : x.magnitude % 0x10000000000000 = 0
    · rw [if_pos ((unpackMantissa_eq_zero_iff x).2 rest)]
      exact .infinity (by omega)
    · rw [if_neg (mt (unpackMantissa_eq_zero_iff x).1 rest)]
      exact .notANumber (by omega)
  · rw [if_neg (mt (unpackExponent_eq_ones_iff x).1 ones)]
    by_cases least : x.magnitude / 0x10000000000000 = 0
    · rw [if_pos ((unpackExponent_eq_zero_iff x).2 least)]
      by_cases rest : x.magnitude % 0x10000000000000 = 0
      · rw [dif_pos ((unpackMantissa_eq_zero_iff x).2 rest)]
        exact .zero (by omega)
      · rw [dif_neg (mt (unpackMantissa_eq_zero_iff x).1 rest)]
        refine .finite _ _ _ ?_ ?_ ?_ ?_ ?_ <;> omega
    · rw [if_neg (mt (unpackExponent_eq_zero_iff x).1 least)]
      -- a leading one stands above the bits of the significand that are kept
      have leading : (1#1 ++ unpackMantissa x.word).toNat
          = 0x10000000000000 + (unpackMantissa x.word).toNat := by
        rw [BitVec.toNat_append]
        exact (Nat.shiftLeft_add_eq_or_of_lt (unpackMantissa x.word).isLt 1).symm
      refine .finite _ _ _ ?_ ?_ ?_ ?_ ?_ <;> omega

/-- What is not a number has the patterns beyond infinity. -/
theorem unpack_eq_notANumber_iff : x.unpack = .notANumber ↔ Binary.infinityBits < x.magnitude := by
  have top : Binary.infinityBits = 2047 * 0x10000000000000 := rfl
  have form := unpacks x
  generalize x.unpack = u at form ⊢
  cases form with
  | zero | finite | infinity => exact ⟨nofun, fun beyond => by omega⟩
  | notANumber pattern => exact ⟨fun _ => pattern, fun _ => rfl⟩

end Fields

/-! ## Numbers in order -/

/-- The place of a sign and the bits below it. -/
def place : Sign → Nat → Int
  | .positive, bits => bits
  | .negative, bits => -(bits : Int) - 1

theorem totalKey_eq_place (x : Double) : x.totalKey = place x.sign x.magnitude := by
  unfold totalKey sign
  cases x.isNegative <;> rfl

/-- Two pairs compare by their first parts, and by their second parts where those are equal. -/
theorem then_eq_lt_iff {e f : Int} {m n : Nat} :
    (compare e f).then (compare m n) = .lt ↔ e < f ∨ e = f ∧ m < n := by
  rw [Ordering.then_eq_lt, Int.compare_eq_lt, Int.compare_eq_eq, Nat.compare_eq_lt]

theorem then_eq_gt_iff {e f : Int} {m n : Nat} :
    (compare e f).then (compare m n) = .gt ↔ f < e ∨ e = f ∧ n < m := by
  rw [Ordering.then_eq_gt, Int.compare_eq_gt, Int.compare_eq_eq, Nat.compare_eq_gt]

theorem place_lt_of_compare {a b : Nat} {s t : Sign} {u v : UnpackedFloat} (hu : Unpacks a s u)
    (hv : Unpacks b t v) (h : UnpackedFloat.compare u v = some .lt) : place s a < place t b := by
  have top : Binary.infinityBits = 2047 * 0x10000000000000 := rfl
  cases hu <;> cases hv <;> cases s <;> cases t <;> dsimp only [UnpackedFloat.compare] at h <;>
    simp [then_eq_lt_iff, then_eq_gt_iff] at h <;> simp only [place] <;> omega

/-- The lesser of two numbers has the lower place. -/
theorem totalKey_lt_of_lt {x y : Double} (h : x < y) : x.totalKey < y.totalKey := by
  rw [totalKey_eq_place, totalKey_eq_place]
  refine place_lt_of_compare (unpacks x) (unpacks y) ?_
  have lt : UnpackedFloat.lt x.unpack y.unpack = true := h
  simpa [UnpackedFloat.lt] using lt

/-- The converse fails: neither zero is less than the other, and what is not a number is less than
nothing, but each has a place of its own. -/
example : ¬ negate (0.0 : Float) < ofFloat 0.0
    ∧ (negate (0.0 : Float)).totalKey < (ofFloat 0.0).totalKey
    ∧ (negate (0.0 / 0.0 : Float)).totalKey < (ofFloat (-1.0 / 0.0)).totalKey := by
  decide +kernel

end Trellis.Double
