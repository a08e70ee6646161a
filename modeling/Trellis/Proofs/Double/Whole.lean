import Trellis.Proofs.Double.Order
import Trellis.Tree.Semantic

/-!
# Whole numbers as doubles

A word fits the significand of a double, so it is not rounded: it is shifted until its leading digit
stands at the place of the implicit one (`round_of_lt`), and what is packed then is finite again
when it is unpacked (`unpack_toFloat`).  So zero divided by a length is zero of either sign, and a
path with the log-probability zero is certain whatever its length (`pathProbability_zero`).
-/

namespace Trellis

open Float.Model Float.Model.UnpackedFloat

/-! ## Rounding -/

theorem targetExponent_eq (e : Int) : Format.binary64.targetExponent e = max (e - 53) (-1074) := rfl

/-- A significand with its leading digit in place is not shifted. -/
theorem shiftToTargetExponent_of_log2 {m : Nat} {e : Int} (leading : m.log2 = 52)
    (normal : -1074 ≤ e) :
    shiftToTargetExponent Format.binary64 m e .exact = (⟨m, false, false⟩, e) := by
  have target : Format.binary64.targetExponent (totalExponent m e) = e := by
    rw [targetExponent_eq, totalExponent, leading]
    omega
  have nothing : (e - e).toNat = 0 := by omega
  rw [shiftToTargetExponent, target, shiftToExponent, nothing, Int.natCast_zero, Int.add_zero]
  rfl

/-- So it is not rounded. -/
theorem roundWithAccuracy_of_log2 {sign : Sign} {m : Nat} {e : Int} (pos : 0 < m)
    (leading : m.log2 = 52) (normal : -1074 ≤ e) :
    roundWithAccuracy Format.binary64 sign m e .exact = .finite sign m e pos := by
  have still := shiftToTargetExponent_of_log2 leading normal
  have exact : (ExtendedMantissa.mk m false false).roundedMantissa = m := rfl
  rw [roundWithAccuracy, still]
  dsimp only
  rw [exact, still]
  exact dif_neg (Nat.ne_of_gt pos)

theorem log2_shiftLeft {n k : Nat} (h : n ≠ 0) : (n <<< k).log2 = n.log2 + k := by
  obtain ⟨low, high⟩ := (Nat.log2_eq_iff h).1 rfl
  have nonzero : n <<< k ≠ 0 :=
    Nat.ne_of_gt (Nat.shiftLeft_pos_iff.2 (Nat.pos_of_ne_zero h))
  rw [Nat.log2_eq_iff nonzero, Nat.shiftLeft_eq, Nat.pow_add,
    show n.log2 + k + 1 = n.log2 + 1 + k by omega, Nat.pow_add]
  constructor
  · exact Nat.mul_le_mul_right _ low
  · exact Nat.mul_lt_mul_of_pos_right high (Nat.two_pow_pos k)

/-- A number that fits the significand is only shifted. -/
theorem round_of_lt {n : Nat} (nonzero : n ≠ 0) (fits : n.log2 < 53) :
    ∃ m pos, m.log2 = 52 ∧ UnpackedFloat.round Format.binary64 .positive n 0
      = .finite .positive m ((n.log2 : Int) - 52) pos := by
  have target : Format.binary64.targetExponent (totalExponent n 0) = (n.log2 : Int) - 52 := by
    rw [targetExponent_eq, totalExponent]
    omega
  have shift : (0 - ((n.log2 : Int) - 52)).toNat = 52 - n.log2 := by omega
  have exponent : (0 : Int) - (52 - n.log2 : Nat) = (n.log2 : Int) - 52 := by omega
  have leading : (n <<< (52 - n.log2)).log2 = 52 := by
    rw [log2_shiftLeft nonzero]
    omega
  have pos : 0 < n <<< (52 - n.log2) := Nat.shiftLeft_pos_iff.2 (Nat.pos_of_ne_zero nonzero)
  refine ⟨n <<< (52 - n.log2), pos, leading, ?_⟩
  rw [UnpackedFloat.round, target, decreaseExponent, shift]
  dsimp only
  rw [exponent]
  apply roundWithAccuracy_of_log2 pos leading
  omega

/-! ## Packing -/

/-- A double is finite and not zero where the field of its exponent has neither all bits nor none;
the field says which power of two it counts. -/
theorem Double.unpack_of_unpackExponent {x : Double} {b : Nat}
    (field : (unpackExponent x.word).toNat = b) (low : 0 < b) (high : b < 2047) :
    ∃ sign m pos, x.unpack = .finite sign m ((b : Int) - 1075) pos := by
  have place : x.magnitude / 0x10000000000000 = b := (toNat_unpackExponent x).symm.trans field
  have form := unpacks x
  generalize x.unpack = unpacked at form
  cases form with
  | zero pattern => omega
  | finite m e pos lowest highest bound leading pattern =>
    have power : e = (b : Int) - 1075 := by omega
    subst power
    exact ⟨_, m, pos, rfl⟩
  | infinity pattern =>
    rw [pattern, Binary.infinityBits] at place
    omega
  | notANumber pattern =>
    unfold Binary.infinityBits at pattern
    omega

/-- With its leading digit in place, a number is packed under its exponent. -/
theorem unpackExponent_pack {sign : Sign} {m : Nat} {e : Int} {pos : 0 < m}
    (leading : m.log2 = 52) (low : -1075 < e) (high : e < 972) :
    (unpackExponent (UnpackedFloat.pack Format.binary64 (.finite sign m e pos))).toNat
      = (e + 1023 + 52).toNat := by
  have range : ¬ 2048 ≤ (e + 1023 + 52).toNat + 1 := by omega
  have width : m.log2 + 1 = 53 := by omega
  have packed : UnpackedFloat.pack Format.binary64 (.finite sign m e pos)
      = if 2048 ≤ (e + 1023 + 52).toNat + 1 then packedInfinity Format.binary64 sign
        else if m.log2 + 1 = 53 then
          packComponents Format.binary64 sign (BitVec.ofNat 11 (e + 1023 + 52).toNat)
            (BitVec.ofNat 52 m)
        else packComponents Format.binary64 sign 0#11 (BitVec.ofNat 52 m) := rfl
  rw [packed, if_neg range, if_pos width, unpackExponent_packComponents, BitVec.toNat_ofNat]
  change (e + 1023 + 52).toNat % 2048 = _
  omega

/-! ## Words -/

/-- A word other than zero is a finite double other than zero. -/
theorem unpack_toFloat {w : UInt32} (h : w ≠ 0) :
    ∃ sign m e pos, w.toFloat.toModel.unpack = .finite sign m e pos := by
  have nonzero : w.toNat ≠ 0 := fun e => h (UInt32.toNat_inj.1 e)
  have size : w.toNat.log2 < 32 := (Nat.log2_lt nonzero).2 w.toNat_lt
  obtain ⟨m, pos, leading, rounded⟩ := round_of_lt nonzero (by omega)
  have whole : UnpackedFloat.ofUInt32 Format.binary64 w
      = .finite .positive m ((w.toNat.log2 : Int) - 52) pos := by
    have positive : compare (w.toNat : Int) 0 = .gt := Int.compare_eq_gt.2 (by omega)
    rw [UnpackedFloat.ofUInt32, UnpackedFloat.ofNat, UnpackedFloat.ofInt,
      UnpackedFloat.normalize, positive]
    exact rounded
  have word : (Double.ofFloat w.toFloat).word
      = UnpackedFloat.pack Format.binary64 (UnpackedFloat.ofUInt32 Format.binary64 w) := rfl
  have field : (unpackExponent (Double.ofFloat w.toFloat).word).toNat
      = ((w.toNat.log2 : Int) - 52 + 1023 + 52).toNat := by
    rw [word, whole]
    apply unpackExponent_pack leading
    · omega
    · omega
  obtain ⟨sign, m, pos, finite⟩ :=
    Double.unpack_of_unpackExponent field (by omega) (by omega)
  exact ⟨sign, m, _, pos, finite⟩

/-- Zero of either sign divided by a word other than zero is zero. -/
theorem zero_div_toFloat {w : UInt32} (h : w ≠ 0) : (-0.0 / w.toFloat == 0.0) = true := by
  obtain ⟨sign, m, e, pos, divisor⟩ := unpack_toFloat h
  have zero : (-0.0 : Float).toModel.unpack = .zero .negative := rfl
  have quotient : UnpackedFloat.div Format.binary64 (.zero .negative) (.finite sign m e pos)
      = .zero (.negative / sign) := rfl
  change (Float.Model.pack (UnpackedFloat.div Format.binary64 (-0.0 : Float).toModel.unpack
    w.toFloat.toModel.unpack) == (0.0 : Float).toModel) = true
  rw [zero, divisor, quotient]
  cases sign with
  | negative => decide
  | positive => decide

/-- A path with the log-probability zero is certain, whatever its length. -/
theorem pathProbability_zero (length : UInt32) :
    pathProbability 0.0 length = ((1.0 : Float) : Double) := by
  unfold pathProbability
  split
  · rfl
  · next nonzero =>
    have number : (0.0 : Float).isNaN = false := rfl
    rw [number, if_neg (by decide), exponential, if_pos (zero_div_toFloat nonzero)]

end Trellis
