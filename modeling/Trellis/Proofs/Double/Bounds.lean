import Mathlib.Algebra.Group.Nat.Defs
import Trellis.Proofs.Double.Whole

/-!
# Doubles within bounds

A result is rounded to a significand of 53 bits, and rounding up carries it over one power of two at
most.  So a bound on the exact result bounds the power of two that the rounded one counts
(`upTo_roundWithAccuracy`), and as long as that power has a place among the doubles nothing turns
infinite when the result is packed (`UpTo.pack`).  This bounds a natural number of sixty-four bits
taken as a double, a quotient by a double of at least one, and a product.
-/

namespace Trellis

open Float.Model Float.Model.UnpackedFloat

/-- A finite number that counts at most the power `top` of two. -/
inductive UpTo (top : Int) : UnpackedFloat → Prop
  | zero (sign : Sign) : UpTo top (.zero sign)
  | finite (sign : Sign) (m : Nat) (e : Int) (pos : 0 < m) (le : e ≤ top) :
      UpTo top (.finite sign m e pos)

namespace UpTo

variable {top : Int} {u : UnpackedFloat}

theorem mono {more : Int} (h : UpTo top u) (le : top ≤ more) : UpTo more u := by
  cases h with
  | zero sign => exact .zero sign
  | finite sign m e pos bound => exact .finite sign m e pos (Int.le_trans bound le)

theorem neg (h : UpTo top u) : UpTo top u.neg := by
  cases h with
  | zero sign => exact .zero _
  | finite sign m e pos bound => exact .finite _ m e pos bound

/-- A significand that may be zero. -/
theorem of_significand {sign : Sign} {m : Nat} {e : Int} (le : e ≤ top) :
    UpTo top (if h : m = 0 then .zero sign else .finite sign m e (Nat.pos_of_ne_zero h)) := by
  by_cases zero : m = 0
  · rw [dif_pos zero]
    exact .zero sign
  · rw [dif_neg zero]
    exact .finite _ _ _ _ le

theorem isFinite {x : Float} (h : UpTo top x.toModel.unpack) : x.isFinite = true := by
  change x.toModel.unpack.isFinite = true
  generalize x.toModel.unpack = u at h ⊢
  cases h <;> rfl

end UpTo

/-! ## Rounding -/

theorem mantissa_shiftRight (em : ExtendedMantissa) (n : Nat) :
    (em >>> n).mantissa = em.mantissa / 2 ^ n := by
  change (n.repeat ExtendedMantissa.shiftRightOne em).mantissa = _
  induction n with
  | zero => rw [Nat.pow_zero, Nat.div_one]; rfl
  | succ n ih =>
    rw [Nat.repeat, ExtendedMantissa.shiftRightOne, ih, Nat.pow_succ, Nat.div_div_eq_div_mul]

theorem mantissa_ofMantissaAndAccuracy (m : Nat) (accuracy : Accuracy) :
    (ExtendedMantissa.ofMantissaAndAccuracy m accuracy).mantissa = m := by
  rcases accuracy with _ | (_ | _ | _) <;> rfl

/-- Rounding adds one at most. -/
theorem roundedMantissa_le (em : ExtendedMantissa) : em.roundedMantissa ≤ em.mantissa + 1 := by
  rw [ExtendedMantissa.roundedMantissa]
  rcases em.accuracy with _ | (_ | _ | _)
  all_goals simp only [Accuracy.roundToNearestEven]; omega

/-- The leading digit of a significand that has been shifted and rounded. -/
theorem log2_rounded_le {m bits shift r : Nat} (size : m < 2 ^ bits)
    (rounded : r ≤ m / 2 ^ shift + 1) : r.log2 ≤ bits - shift := by
  by_cases zero : r = 0
  · rw [zero]
    exact Nat.zero_le _
  · have kept : m / 2 ^ shift < 2 ^ (bits - shift) := by
      by_cases all : bits ≤ shift
      · have nothing : m / 2 ^ shift = 0 :=
          Nat.div_eq_of_lt (Nat.lt_of_lt_of_le size (Nat.pow_le_pow_right (by decide) all))
        rw [nothing]
        exact Nat.two_pow_pos _
      · rw [Nat.div_lt_iff_lt_mul (Nat.two_pow_pos _), ← Nat.pow_add]
        rwa [Nat.sub_add_cancel (by omega)]
    have below : r < 2 ^ (bits - shift + 1) := by
      rw [Nat.pow_succ]
      omega
    exact Nat.lt_succ_iff.1 ((Nat.log2_lt zero).2 below)

/-- The power that a significand is shifted to. -/
theorem shifted_eq (m : Nat) (e : Int) (accuracy : Accuracy) :
    shiftToTargetExponent Format.binary64 m e accuracy
      = (ExtendedMantissa.ofMantissaAndAccuracy m accuracy
          >>> (max (m.log2 + 1 + e - 53) (-1074) - e).toNat,
        e + (max (m.log2 + 1 + e - 53) (-1074) - e).toNat) := rfl

/-- **Rounding keeps a bound.**  A result below `2 ^ (top + 52)` that counts no more than the power
`top` to begin with counts no more when it is rounded. -/
theorem upTo_roundWithAccuracy {sign : Sign} {m bits : Nat} {e top : Int} {accuracy : Accuracy}
    (size : m < 2 ^ bits) (scale : e ≤ top) (whole : bits + e ≤ top + 52) (least : -1074 ≤ top) :
    UpTo top (roundWithAccuracy Format.binary64 sign m e accuracy) := by
  have leading : m.log2 ≤ bits := by
    by_cases zero : m = 0
    · rw [zero]
      exact Nat.zero_le _
    · exact Nat.le_of_lt ((Nat.log2_lt zero).2 size)
  rw [roundWithAccuracy, shifted_eq]
  generalize hs : (max (m.log2 + 1 + e - 53) (-1074) - e).toNat = shift
  dsimp only
  rw [shifted_eq]
  generalize hr : (ExtendedMantissa.ofMantissaAndAccuracy m accuracy >>> shift).roundedMantissa = r
  have carried : r.log2 ≤ bits - shift := by
    have up := roundedMantissa_le (ExtendedMantissa.ofMantissaAndAccuracy m accuracy >>> shift)
    rw [hr, mantissa_shiftRight, mantissa_ofMantissaAndAccuracy] at up
    exact log2_rounded_le size up
  apply UpTo.of_significand
  omega

theorem shiftLeft_lt {m bits : Nat} (size : m < 2 ^ bits) (shift : Nat) :
    m <<< shift < 2 ^ (bits + shift) := by
  rw [Nat.shiftLeft_eq, Nat.pow_add]
  exact Nat.mul_lt_mul_of_pos_right size (Nat.two_pow_pos shift)

theorem upTo_round {sign : Sign} {n : Nat} (size : n < 2 ^ 64) :
    UpTo 12 (UnpackedFloat.round Format.binary64 sign n 0) := by
  rw [UnpackedFloat.round, decreaseExponent]
  generalize (0 - Format.binary64.targetExponent (totalExponent n 0)).toNat = shift
  apply upTo_roundWithAccuracy (shiftLeft_lt size shift)
  · omega
  · omega
  · decide

/-! ## Packing -/

/-- The field of the exponent of a number within bounds. -/
theorem UpTo.unpackExponent_pack_le {top : Int} {u : UnpackedFloat} (h : UpTo top u)
    (least : -1074 ≤ top) (most : top ≤ 971) :
    ((unpackExponent (UnpackedFloat.pack Format.binary64 u)).toNat : Int) ≤ top + 1075 := by
  cases h with
  | zero sign =>
    change ((unpackExponent (packedZero Format.binary64 sign)).toNat : Int) ≤ _
    rw [packedZero, unpackExponent_packComponents]
    change (0 : Int) ≤ _
    omega
  | finite sign m e pos le =>
    have packed : UnpackedFloat.pack Format.binary64 (.finite sign m e pos)
        = if 2048 ≤ (e + 1023 + 52).toNat + 1 then packedInfinity Format.binary64 sign
          else if m.log2 + 1 = 53 then
            packComponents Format.binary64 sign (BitVec.ofNat 11 (e + 1023 + 52).toNat)
              (BitVec.ofNat 52 m)
          else packComponents Format.binary64 sign 0#11 (BitVec.ofNat 52 m) := rfl
    rw [packed, if_neg (by omega)]
    split
    · rw [unpackExponent_packComponents, BitVec.toNat_ofNat]
      change (((e + 1023 + 52).toNat % 2048 : Nat) : Int) ≤ _
      omega
    · rw [unpackExponent_packComponents]
      change (0 : Int) ≤ _
      omega

/-- **Packing keeps a bound**, as long as its power has a place among the doubles. -/
theorem UpTo.pack {top : Int} {u : UnpackedFloat} (h : UpTo top u) (least : -1074 ≤ top)
    (most : top ≤ 971) : UpTo top (Float.Model.pack u).unpack := by
  have field := h.unpackExponent_pack_le least most
  let x : Double := ⟨UInt64.ofBitVec (UnpackedFloat.pack Format.binary64 u)⟩
  change UpTo top x.unpack
  have place : (unpackExponent (UnpackedFloat.pack Format.binary64 u)).toNat
      = x.magnitude / 0x10000000000000 := x.toNat_unpackExponent
  rw [place] at field
  have form := x.unpacks
  have beyond : Binary.infinityBits = 2047 * 0x10000000000000 := rfl
  generalize x.unpack = unpacked at form ⊢
  cases form with
  | zero pattern => exact .zero _
  | finite m e pos low high bound leading pattern =>
    exact .finite _ m e pos (by omega)
  | infinity pattern => omega
  | notANumber pattern => omega

/-! ## Operations -/

/-- A finite double has a significand of 53 bits at most. -/
theorem significand_lt {x : Float} {sign : Sign} {m : Nat} {e : Int} {pos : 0 < m}
    (h : x.toModel.unpack = .finite sign m e pos) : m < 2 ^ 53 := by
  have form := (Double.ofFloat x).unpacks
  change Double.Unpacks _ _ x.toModel.unpack at form
  rw [h] at form
  cases form with
  | finite m e pos low high bound leading pattern => exact bound

/-- A double whose significand counts a power of two of at least `-52`, as that of one does. -/
def AtLeastOne (x : Float) : Prop :=
  ∃ sign m e pos, x.toModel.unpack = .finite sign m e pos ∧ -52 ≤ e

/-- A pattern that is not below that of one is at least one. -/
theorem atLeastOne_ofBits {bits : Nat} (low : 1023 * 0x10000000000000 ≤ bits)
    (high : bits < Binary.infinityBits) : AtLeastOne (Binary.ofBits false bits) := by
  have top : Binary.infinityBits = 2047 * 0x10000000000000 := rfl
  let x : Double := ⟨UInt64.ofNat bits⟩
  have word : x.bits.toNat = bits := UInt64.toNat_ofNat_of_lt' (by rw [UInt64.size]; omega)
  have magnitude : x.magnitude = bits := by
    rw [Double.magnitude, word, Binary.signBit]
    omega
  have form := x.unpacks
  rw [magnitude] at form
  change ∃ sign m e pos, (Float.Model.pack x.unpack).unpack = .finite sign m e pos ∧ -52 ≤ e
  generalize x.unpack = unpacked at form ⊢
  cases form with
  | zero pattern => omega
  | infinity pattern => omega
  | notANumber pattern => omega
  | finite m e pos lowest highest bound leading pattern =>
    -- the number has its leading digit in place, so it is packed as it was
    have digits : m.log2 = 52 := (Nat.log2_eq_iff (by omega)).2 (by omega)
    let y : Double := ⟨UInt64.ofBitVec (UnpackedFloat.pack .binary64 (.finite x.sign m e pos))⟩
    have field : (unpackExponent y.word).toNat = (e + 1023 + 52).toNat :=
      @unpackExponent_pack _ m e pos digits (by omega) (by omega)
    obtain ⟨sign, m', pos', unpacked⟩ :=
      Double.unpack_of_unpackExponent field (by omega) (by omega)
    exact ⟨sign, m', _, pos', unpacked, by omega⟩

/-- No finite double counts a power of two beyond 971. -/
theorem upTo_of_isFinite {x : Float} (h : x.isFinite = true) : UpTo 971 x.toModel.unpack := by
  have form := (Double.ofFloat x).unpacks
  change Double.Unpacks _ _ x.toModel.unpack at form
  change x.toModel.unpack.isFinite = true at h
  generalize x.toModel.unpack = unpacked at form h ⊢
  cases form with
  | zero pattern => exact .zero _
  | finite m e pos low high bound leading pattern => exact .finite _ m e pos high
  | infinity pattern => cases h
  | notANumber pattern => cases h

theorem isFinite_neg {x : Float} (h : x.isFinite = true) : (-x).isFinite = true :=
  ((upTo_of_isFinite h).neg.pack (by decide) (by decide)).isFinite

/-- The unpacked form of a double within bounds, with its significand. -/
theorem UpTo.cases_of_unpack {top : Int} {x : Float} (h : UpTo top x.toModel.unpack) :
    (∃ sign, x.toModel.unpack = .zero sign)
      ∨ ∃ sign m e pos, x.toModel.unpack = .finite sign m e pos ∧ m < 2 ^ 53 ∧ e ≤ top := by
  cases form : x.toModel.unpack with
  | notANumber => rw [form] at h; cases h
  | infinity sign => rw [form] at h; cases h
  | zero sign => exact .inl ⟨sign, rfl⟩
  | finite sign m e pos =>
    rw [form] at h
    cases h with
    | finite _ _ _ _ le => exact .inr ⟨sign, m, e, pos, rfl, significand_lt form, le⟩

theorem mul_finite {sign sign' : Sign} {m m' : Nat} {e e' : Int} {pos : 0 < m} {pos' : 0 < m'} :
    UnpackedFloat.mul Format.binary64 (.finite sign m e pos) (.finite sign' m' e' pos')
      = roundWithAccuracy Format.binary64 (sign * sign') (m * m') (e + e') .exact := rfl

/-- **A product is bounded** by the bounds of its factors. -/
theorem UpTo.mul {top limit : Int} {x y : Float} (hx : UpTo top x.toModel.unpack)
    (hy : UpTo limit y.toModel.unpack) (least : -1128 ≤ top + limit) (most : top + limit ≤ 917) :
    UpTo (top + limit + 54) (x * y).toModel.unpack := by
  suffices exact : UpTo (top + limit + 54)
      (UnpackedFloat.mul Format.binary64 x.toModel.unpack y.toModel.unpack) by
    apply exact.pack <;> omega
  rcases hx.cases_of_unpack with ⟨sign, hx⟩ | ⟨sign, m, e, pos, hx, size, le⟩ <;>
    rcases hy.cases_of_unpack with ⟨sign', hy⟩ | ⟨sign', m', e', pos', hy, size', le'⟩ <;>
    rw [hx, hy]
  · exact .zero _
  · exact .zero _
  · exact .zero _
  · have product : m * m' < 2 ^ (53 + 53) := by
      rw [Nat.pow_add]
      exact Nat.mul_lt_mul'' size size'
    rw [mul_finite]
    apply upTo_roundWithAccuracy product <;> omega

/-- **A quotient by a double of at least one is bounded** by the bound of what is divided. -/
theorem UpTo.div {top : Int} {x y : Float} (h : UpTo top x.toModel.unpack) (large : AtLeastOne y)
    (least : -1127 ≤ top) (most : top ≤ 918) : UpTo (top + 53) (x / y).toModel.unpack := by
  obtain ⟨sign', m', e', pos', divisor, scale⟩ := large
  suffices exact : UpTo (top + 53)
      (UnpackedFloat.div Format.binary64 x.toModel.unpack y.toModel.unpack) by
    apply exact.pack <;> omega
  rw [divisor]
  rcases h.cases_of_unpack with ⟨sign, dividend⟩ | ⟨sign, m, e, pos, dividend, size, le⟩ <;>
    rw [dividend]
  · exact .zero _
  · change UpTo (top + 53) (let (n, k, accuracy) := divCore Format.binary64 m e m' e'
      roundWithAccuracy Format.binary64 (sign / sign') n k accuracy)
    rw [divCore]
    -- the quotient is taken with so many digits more as the dividend is shifted by
    generalize ht : min (e - e') (Format.binary64.targetExponent
      (totalExponent m e - totalExponent m' e')) = target
    generalize hs : (e - e' - target).toNat = shift
    have quotient : m <<< shift / m' < 2 ^ (53 + shift) :=
      Nat.lt_of_le_of_lt (Nat.div_le_self _ _) (shiftLeft_lt size shift)
    have scale : target ≤ top + 53 := by omega
    have whole : ((53 + shift : Nat) : Int) + target ≤ top + 53 + 52 := by omega
    exact upTo_roundWithAccuracy quotient scale whole (by omega)

theorem upTo_unpackedOfNat {n : Nat} (size : n < 2 ^ 64) :
    UpTo 12 (UnpackedFloat.ofNat Format.binary64 n) := by
  rw [UnpackedFloat.ofNat, UnpackedFloat.ofInt, UnpackedFloat.normalize]
  split
  · next negative => rw [Int.compare_eq_lt] at negative; omega
  · exact .zero _
  · exact upTo_round size

/-- **A natural number of sixty-four bits is bounded** when it is taken as a double. -/
theorem upTo_ofNat {n : Nat} (size : n < 2 ^ 64) : UpTo 14 (Float.ofNat n).toModel.unpack := by
  rw [Float.ofNat, OfScientific.ofScientific, instOfScientificFloat]
  dsimp only
  rw [Float.ofScientific]
  split
  · -- a small number is multiplied by the double one
    have word : n.toUInt64.toNat = n := Nat.mod_eq_of_lt size
    have factor : UpTo 12 n.toUInt64.toFloat.toModel.unpack := by
      have bound := upTo_unpackedOfNat (n := n.toUInt64.toNat) (by rw [word]; exact size)
      exact bound.pack (by decide) (by decide)
    have one : UpTo (-52) (Float.ofBits 0x3FF0000000000000).toModel.unpack := by
      have form : (Float.ofBits 0x3FF0000000000000).toModel.unpack
          = .finite .positive (2 ^ 52) (-52) (by decide) := rfl
      rw [form]
      exact .finite _ _ _ _ (Int.le_refl _)
    exact factor.mul one (by decide) (by decide)
  · suffices exact : UpTo 12 (UnpackedFloat.ofScientific Format.binary64 n 0) by
      exact (exact.pack (by decide) (by decide)).mono (by decide)
    rw [UnpackedFloat.ofScientific]
    by_cases zero : n = 0
    · rw [dif_pos zero]
      exact .zero _
    · have near : ¬ (0 : Int) < -((2 ^ 11 : Int) + n.log2) := by omega
      have digits : Format.binary64.mantissaBits = 53 := rfl
      rw [dif_neg zero, if_neg (by decide), if_neg near, if_pos (by decide), mul_finite, digits,
        Int.toNat_zero, Nat.pow_zero, Nat.mul_one, Int.add_zero]
      apply upTo_roundWithAccuracy (shiftLeft_lt size 53)
      · decide
      · decide
      · decide

end Trellis
