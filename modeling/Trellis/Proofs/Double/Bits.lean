import Trellis.Proofs.Double.Whole

/-!
# Doubles from their bits

A finite double is packed again as it was unpacked: either its significand has its leading digit in
place, and the field of the exponent says where that stands, or it counts the least power of two
there is, and that field is empty (`toNat_pack_of_unpacks`).  So a finite double is made again from
its sign and the bits below it (`ofBits_magnitudeBits`).
-/

namespace Trellis

open Float.Model Float.Model.UnpackedFloat

theorem toNat_packComponents (sign : Sign) (exponent : BitVec 11) (mantissa : BitVec 52) :
    (packComponents Format.binary64 sign exponent mantissa).toNat
      = sign.toBitVec.toNat * Binary.signBit + exponent.toNat * 0x10000000000000
        + mantissa.toNat := by
  have front : (sign.toBitVec ++ exponent).toNat
      = sign.toBitVec.toNat * 0x800 + exponent.toNat := by
    rw [BitVec.toNat_append, ← Nat.shiftLeft_add_eq_or_of_lt exponent.isLt, Nat.shiftLeft_eq]
  have whole : (sign.toBitVec ++ exponent ++ mantissa).toNat
      = (sign.toBitVec ++ exponent).toNat * 0x10000000000000 + mantissa.toNat := by
    rw [BitVec.toNat_append, ← Nat.shiftLeft_add_eq_or_of_lt mantissa.isLt, Nat.shiftLeft_eq]
  have top : Binary.signBit = 0x800 * 0x10000000000000 := rfl
  show (sign.toBitVec ++ exponent ++ mantissa).toNat = _
  rw [whole, front, top]
  omega

/-- The bits that a finite number is packed into are those that it is unpacked from. -/
theorem toNat_pack_of_unpacks {bits : Nat} {sign : Sign} {u : UnpackedFloat}
    (form : Double.Unpacks bits sign u) (finite : u.isFinite = true) :
    (UnpackedFloat.pack Format.binary64 u).toNat = sign.toBitVec.toNat * Binary.signBit + bits := by
  cases form with
  | zero pattern =>
    have packed : UnpackedFloat.pack Format.binary64 (.zero sign)
        = packComponents Format.binary64 sign 0#11 0#52 := rfl
    rw [packed, toNat_packComponents, pattern]
    simp
  | finite m e pos low high bound leading pattern =>
    have packed : UnpackedFloat.pack Format.binary64 (.finite sign m e pos)
        = if 2048 ≤ (e + 1023 + 52).toNat + 1 then packedInfinity Format.binary64 sign
          else if m.log2 + 1 = 53 then
            packComponents Format.binary64 sign (BitVec.ofNat 11 (e + 1023 + 52).toNat)
              (BitVec.ofNat 52 m)
          else packComponents Format.binary64 sign 0#11 (BitVec.ofNat 52 m) := rfl
    have place : m.log2 + 1 = 53 ↔ 0x10000000000000 ≤ m := by
      rw [Nat.add_right_cancel_iff (n := 1) (m := m.log2) (k := 52), Nat.log2_eq_iff (by omega)]
      omega
    have range : ¬ 2048 ≤ (e + 1023 + 52).toNat + 1 := by omega
    rw [packed, if_neg range]
    by_cases normal : 0x10000000000000 ≤ m
    · have field : (BitVec.ofNat 11 (e + 1023 + 52).toNat).toNat = (e + 1023 + 52).toNat := by
        rw [BitVec.toNat_ofNat]
        omega
      have rest : (BitVec.ofNat 52 m).toNat = m - 0x10000000000000 := by
        rw [BitVec.toNat_ofNat]
        omega
      rw [if_pos (place.2 normal), toNat_packComponents, field, rest]
      omega
    · have rest : (BitVec.ofNat 52 m).toNat = m := by
        rw [BitVec.toNat_ofNat]
        omega
      rw [if_neg (mt place.1 normal), toNat_packComponents, rest]
      show _ + 0 * 0x10000000000000 + m = _
      omega
  | infinity pattern => cases finite
  | notANumber pattern => cases finite

theorem Double.toNat_sign (x : Double) :
    x.sign.toBitVec.toNat * Binary.signBit = if x.isNegative then Binary.signBit else 0 := by
  rw [Double.sign]
  cases x.isNegative <;> rfl

/-- A finite double is made again from its bits. -/
theorem ofBits_toBits {x : Float} (finite : x.isFinite = true) : Float.ofBits x.toBits = x := by
  have packed := toNat_pack_of_unpacks (Double.ofFloat x).unpacks finite
  rw [Double.toNat_sign, ← Double.toNat_bits] at packed
  obtain ⟨⟨bits, valid⟩⟩ := x
  have same : UInt64.ofBitVec (UnpackedFloat.pack .binary64 (UnpackedFloat.unpack .binary64
      bits.toBitVec)) = bits := UInt64.toNat_inj.1 packed
  show Float.ofModel ⟨UInt64.ofBitVec _, _⟩ = _
  congr 2

namespace Binary

/-- The bits of a finite double below its sign are a finite pattern. -/
theorem magnitudeBits_lt {x : Float} (finite : x.isFinite = true) :
    magnitudeBits x < infinityBits := by
  have form := (Double.ofFloat x).unpacks
  change Double.Unpacks (magnitudeBits x) _ x.toModel.unpack at form
  change x.toModel.unpack.isFinite = true at finite
  have top : infinityBits = 2047 * 0x10000000000000 := rfl
  generalize x.toModel.unpack = unpacked at form finite
  cases form with
  | zero pattern => omega
  | finite m e pos low high bound leading pattern => omega
  | infinity pattern => cases finite
  | notANumber pattern => cases finite

/-- **A finite double is made again** from its sign and the bits below it. -/
theorem ofBits_magnitudeBits {x : Float} (finite : x.isFinite = true) :
    ofBits (isNegative x) (magnitudeBits x) = x := by
  have bits := (Double.ofFloat x).toNat_bits
  change x.toBits.toNat = (if isNegative x = true then signBit else 0) + magnitudeBits x at bits
  have word : UInt64.ofNat (if isNegative x = true then signBit + magnitudeBits x
      else magnitudeBits x) = x.toBits := by
    rw [← UInt64.toNat_inj, UInt64.toNat_ofNat_of_lt', bits]
    · split <;> omega
    · have := x.toBits.toNat_lt
      rw [bits] at this
      rw [UInt64.size]
      split <;> split at this <;> omega
  rw [ofBits, word, ofBits_toBits finite]

end Binary

end Trellis
