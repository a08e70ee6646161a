import Trellis.Decimal.Layout
import Trellis.Proofs.Decimal.Basic
import Trellis.Proofs.Double.Bits

/-!
# The shortest decimal reads back

Whichever decimal the search for a short one settles on, it is one whose nearest pattern has been
looked at; only the exact value behind the search has not, and of that one the units are counted
without a rest (`nearestBits_units`).  A decimal with more zeros behind its digits, and a smaller
power of ten, is the same number (`nearestBits_shift`).
-/

namespace Trellis

namespace Binary

/-! ## The units of a pattern -/

theorem significand_lt_twoTo (bits : Nat) : significand bits < twoTo 53 := by
  show bits - (bits / 0x10000000000000 - 1) * 0x10000000000000 < 0x20000000000000
  omega

/-- A pattern counts its significand from where its leading digit puts it. -/
theorem log2_units (bits : Nat) : (units bits).log2 - 52 = shift bits := by
  by_cases normal : 0x10000000000000 ≤ bits
  · have low : 2 ^ 52 ≤ significand bits := by
      show 0x10000000000000 ≤ bits - (bits / 0x10000000000000 - 1) * 0x10000000000000
      omega
    have nonzero : significand bits ≠ 0 := by omega
    have leading : (significand bits).log2 = 52 :=
      (Nat.log2_eq_iff nonzero).2 ⟨low, significand_lt_twoTo bits⟩
    rw [units, log2_mul_twoTo nonzero, leading]
    omega
  · have still : shift bits = 0 := by
      show bits / 0x10000000000000 - 1 = 0
      omega
    have counted : units bits = bits := by
      rw [units, significand, still]
      show (bits - 0 * twoTo 52) * 1 = bits
      omega
    rw [counted, still]
    by_cases zero : bits = 0
    · subst zero
      rfl
    · have small : bits.log2 < 53 := (Nat.log2_lt zero).2 (by omega)
      omega

/-- The units of a pattern, over what they are units of, are nearest to the pattern. -/
theorem nearestBits_units (bits : Nat) : nearestBits (units bits) (twoTo 1074) = bits := by
  have quotient : units bits * twoTo 1074 / twoTo 1074 = units bits :=
    Nat.mul_div_cancel _ (twoTo_pos 1074)
  have exactly : divNearest (units bits * twoTo 1074) (twoTo 1074 * twoTo (shift bits))
      = significand bits := by
    rw [Nat.mul_comm (twoTo 1074), divNearest_mul_right _ _ (twoTo_pos 1074), units,
      divNearest_of_mul _ (twoTo_pos _)]
  have fits : shift bits * twoTo 52 ≤ bits := by
    show (bits / 0x10000000000000 - 1) * 0x10000000000000 ≤ bits
    omega
  unfold nearestBits
  dsimp only
  rw [quotient, log2_units, exactly, significand]
  omega

/-- A unit is a power of five over one of ten. -/
theorem nearestBits_units_tens (bits : Nat) {n : Nat} (h : n = 1074) :
    nearestBits (units bits * Nat.pow 5 n) (tenTo n) = bits := by
  rw [tenTo_eq, nearestBits_mul_right _ _ (fiveTo_pos n), h, nearestBits_units]

/-- A pattern that is not zero has units, and a finite one not too many of them. -/
theorem units_bounds {bits : Nat} (nonzero : bits ≠ 0) (finite : bits < infinityBits) :
    0 < units bits ∧ units bits < twoTo 2098 := by
  have top : infinityBits = 2047 * 0x10000000000000 := rfl
  have low : 0 < significand bits := by
    show 0 < bits - (bits / 0x10000000000000 - 1) * 0x10000000000000
    omega
  have place : shift bits ≤ 2045 := by
    show bits / 0x10000000000000 - 1 ≤ 2045
    omega
  constructor
  · exact Nat.mul_pos low (twoTo_pos _)
  · calc units bits < twoTo 53 * twoTo (shift bits) :=
          Nat.mul_lt_mul_of_pos_right (significand_lt_twoTo bits) (twoTo_pos _)
      _ = twoTo (53 + shift bits) := (twoTo_add 53 (shift bits)).symm
      _ ≤ twoTo 2098 := twoTo_le (by omega)

end Binary

namespace Decimal

/-! ## Decimals in other terms -/

theorem width_le_iff {d : Decimal} {k : Nat} (pos : 0 < k) : d.width ≤ k ↔ d.digits < tenTo k := by
  unfold width
  split
  · next zero =>
    have := tenTo_pos k
    omega
  · exact Nat.length_toDigits_le_iff (by decide) pos

theorem digits_mul_tenTo {n : Nat} (nonzero : n ≠ 0) (k : Nat) :
    Layout.digits (n * tenTo k) = Layout.digits n ++ Layout.zeros k := by
  induction k with
  | zero =>
    show Layout.digits (n * 1) = Layout.digits n ++ []
    rw [Nat.mul_one, List.append_nil]
  | succ k ih =>
    have more : n * tenTo (k + 1) = n * tenTo k * 10 := by rw [tenTo_succ, Nat.mul_assoc]
    have large : 10 ≤ n * tenTo k * 10 := by
      have := Nat.mul_pos (Nat.pos_of_ne_zero nonzero) (tenTo_pos k)
      omega
    have zero : (n * tenTo k * 10 % 10).digitChar = '0' := by
      rw [Nat.mul_mod_left]
      rfl
    rw [more, Layout.digits, Nat.toDigits_of_base_le (by decide) large,
      Nat.mul_div_cancel _ (by decide), zero]
    rw [Layout.digits] at ih
    rw [ih, Layout.zeros, Layout.zeros, List.replicate_succ', List.append_assoc]

/-- Zeros behind the digits go with a smaller power of ten. -/
theorem nearestBits_shift (negative : Bool) (n : Nat) (exponent : Int) (k : Nat) :
    nearestBits ⟨negative, n * tenTo k, exponent - k⟩ = nearestBits ⟨negative, n, exponent⟩ := by
  by_cases zero : n = 0
  · subst zero
    rw [Nat.zero_mul, nearestBits, nearestBits, if_pos rfl, if_pos rfl]
  have nonzero : n * tenTo k ≠ 0 := Nat.mul_ne_zero zero (Nat.ne_of_gt (tenTo_pos k))
  have width : width ⟨negative, n * tenTo k, exponent - k⟩
      = width ⟨negative, n, exponent⟩ + k := by
    have ds := congrArg List.length (digits_mul_tenTo zero k)
    rw [List.length_append, Layout.zeros, List.length_replicate] at ds
    show (if n * tenTo k = 0 then 0 else (Layout.digits (n * tenTo k)).length)
      = (if n = 0 then 0 else (Layout.digits n).length) + k
    rw [if_neg nonzero, if_neg zero, ds]
  have places : exponent - k + ((Decimal.width ⟨negative, n, exponent⟩ + k : Nat) : Int)
      = exponent + Decimal.width ⟨negative, n, exponent⟩ := by omega
  unfold nearestBits
  dsimp only
  rw [if_neg nonzero, if_neg zero, width, places]
  congr 2
  by_cases whole : exponent < 0
  · have power : (exponent - k).natAbs = exponent.natAbs + k := by omega
    rw [if_pos whole, if_pos (by omega), power, tenTo_add]
    exact Binary.nearestBits_mul_right n _ (tenTo_pos k)
  · rw [if_neg whole]
    by_cases below : exponent - k < 0
    · have power : exponent.natAbs + (exponent - k).natAbs = k := by omega
      have split : n * tenTo k = n * tenTo exponent.natAbs * tenTo (exponent - k).natAbs := by
        rw [Nat.mul_assoc, ← tenTo_add, power]
      rw [if_pos below, split, ← Binary.nearestBits_mul_right _ 1 (tenTo_pos (exponent - k).natAbs),
        Nat.one_mul]
    · have power : exponent.natAbs = k + (exponent - k).natAbs := by omega
      have split : n * tenTo k * tenTo (exponent - k).natAbs = n * tenTo exponent.natAbs := by
        rw [Nat.mul_assoc, ← tenTo_add, power]
      rw [if_neg below, split]

/-! ## What the search settles on -/

theorem nearestBits_gridPoint? {bits : Nat} {g : Int} {d : Decimal}
    (h : gridPoint? bits g = some d) : d.nearestBits = bits := by
  rw [gridPoint?] at h
  have back := List.find?_some h
  exact beq_iff_eq.1 back

theorem nearestBits_coarsest? {bits steps : Nat} {g : Int} {d : Decimal}
    (h : coarsest? bits steps g = some d) : d.nearestBits = bits := by
  induction steps generalizing g with
  | zero => cases h
  | succ steps ih =>
    rw [coarsest?] at h
    cases point : gridPoint? bits g with
    | none =>
      rw [point] at h
      exact ih h
    | some e =>
      rw [point] at h
      cases h
      exact nearestBits_gridPoint? point

/-- The exact value of a finite pattern is within the places that are looked at. -/
theorem nearestBits_exact {bits : Nat} (nonzero : bits ≠ 0) (finite : bits < Binary.infinityBits) :
    (exact bits).nearestBits = bits := by
  obtain ⟨low, high⟩ := Binary.units_bounds nonzero finite
  have notSmall : ¬ (exact bits).width ≤ 673 := by
    have floor : tenTo 673 ≤ Nat.pow 5 1074 := by decide +kernel
    rw [width_le_iff (by decide)]
    apply Nat.not_lt_of_le
    calc tenTo 673 ≤ Nat.pow 5 1074 := floor
      _ ≤ Binary.units bits * Nat.pow 5 1074 := Nat.le_mul_of_pos_left _ low
  have notLarge : (exact bits).width ≤ 1474 := by
    have ceiling : twoTo 2098 * Nat.pow 5 1074 ≤ tenTo 1474 := by decide +kernel
    rw [width_le_iff (by decide)]
    apply Nat.lt_of_lt_of_le _ ceiling
    apply Nat.mul_lt_mul_of_pos_right high
    apply fiveTo_pos
  have digits : (exact bits).digits ≠ 0 := by
    intro none
    apply notSmall
    rw [width, if_pos none]
    omega
  have exponent : (exact bits).exponent = -1074 := rfl
  unfold nearestBits
  dsimp only
  rw [if_neg digits, exponent, if_neg (by omega), if_neg (by omega),
    if_pos (by decide)]
  show Binary.nearestBits (Binary.units bits * Nat.pow 5 1074) (tenTo 1074) = bits
  apply Binary.nearestBits_units_tens
  rfl

theorem nearestBits_ofBits {bits : Nat} (finite : bits < Binary.infinityBits) :
    (ofBits bits).nearestBits = bits := by
  unfold ofBits
  split
  · next zero =>
    subst zero
    rfl
  · next nonzero =>
    cases search : coarsest? bits 20 (topGrid bits) with
    | none => exact nearestBits_exact nonzero finite
    | some d => exact nearestBits_coarsest? search

/-- Without digits, the decimal of a pattern is plainly zero. -/
theorem exponent_ofBits {bits : Nat} (finite : bits < Binary.infinityBits)
    (none : (ofBits bits).digits = 0) : (ofBits bits).exponent = 0 := by
  have zero : bits = 0 := by
    rw [← nearestBits_ofBits finite, nearestBits, if_pos none]
  subst zero
  rfl

/-- **The decimal of a finite double is read as that double.** -/
theorem toFloat?_ofFloat {x : Float} (finite : x.isFinite = true) :
    (ofFloat x).toFloat? = some x := by
  have below := Binary.magnitudeBits_lt finite
  have nearest : (ofFloat x).nearestBits = Binary.magnitudeBits x := nearestBits_ofBits below
  rw [toFloat?, nearest, if_pos below]
  exact congrArg some (Binary.ofBits_magnitudeBits finite)

end Decimal

end Trellis
