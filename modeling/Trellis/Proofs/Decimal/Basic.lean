import Trellis.Decimal.Basic
import Trellis.Proofs.Double.Whole

/-!
# Powers and rounded quotients

The powers of two and of ten that doubles and decimals are counted in, and quotients that are rounded
to the nearest natural, which do not depend on the terms they are given in.
-/

namespace Trellis

/-! ## Powers -/

theorem twoTo_pos (n : Nat) : 0 < twoTo n := Nat.two_pow_pos n

theorem twoTo_add (m n : Nat) : twoTo (m + n) = twoTo m * twoTo n := Nat.pow_add 2 m n

theorem twoTo_le {m n : Nat} (h : m ≤ n) : twoTo m ≤ twoTo n := Nat.pow_le_pow_right (by decide) h

theorem log2_lt_iff {n k : Nat} (h : n ≠ 0) : n.log2 < k ↔ n < twoTo k := Nat.log2_lt h

theorem tenTo_pos (n : Nat) : 0 < tenTo n := Nat.pow_pos (by decide)

theorem tenTo_add (m n : Nat) : tenTo (m + n) = tenTo m * tenTo n := Nat.pow_add 10 m n

theorem tenTo_le {j k : Nat} (h : j ≤ k) : tenTo j ≤ tenTo k :=
  Nat.pow_le_pow_right (by decide) h

theorem fiveTo_pos (n : Nat) : 0 < Nat.pow 5 n := Nat.pow_pos (by decide)

/-- Ten is two times five. -/
theorem tenTo_eq (n : Nat) : tenTo n = twoTo n * Nat.pow 5 n := Nat.mul_pow 2 5 n

namespace Binary

/-! ## Rounded quotients -/

theorem divNearest_bounds (num den : Nat) :
    num / den ≤ divNearest num den ∧ divNearest num den ≤ num / den + 1 := by
  unfold divNearest
  dsimp only
  split
  · omega
  · split
    · omega
    · split <;> omega

theorem divNearest_mul_right (num den : Nat) {k : Nat} (pos : 0 < k) :
    divNearest (num * k) (den * k) = divNearest num den := by
  have quotient : num * k / (den * k) = num / den := Nat.mul_div_mul_right num den pos
  have rest : 2 * (num * k % (den * k)) = 2 * (num % den) * k := by
    rw [Nat.mul_mod_mul_right, Nat.mul_assoc]
  unfold divNearest
  dsimp only
  rw [quotient, rest]
  simp only [Nat.mul_lt_mul_right pos]

theorem nearestBits_mul_right (num den : Nat) {k : Nat} (pos : 0 < k) :
    nearestBits (num * k) (den * k) = nearestBits num den := by
  have counted : num * k * twoTo 1074 = num * twoTo 1074 * k := Nat.mul_right_comm ..
  have quotient : num * twoTo 1074 * k / (den * k) = num * twoTo 1074 / den :=
    Nat.mul_div_mul_right _ _ pos
  unfold nearestBits
  dsimp only
  rw [counted, quotient, Nat.mul_right_comm den k, divNearest_mul_right _ _ pos]

theorem divNearest_of_mul (m : Nat) {den : Nat} (pos : 0 < den) : divNearest (m * den) den = m := by
  unfold divNearest
  dsimp only
  rw [Nat.mul_mod_left, Nat.mul_div_cancel _ pos]
  exact if_pos pos

theorem log2_mul_twoTo {n : Nat} (nonzero : n ≠ 0) (p : Nat) :
    (n * twoTo p).log2 = n.log2 + p := by
  have shifted : n <<< p = n * twoTo p := Nat.shiftLeft_eq n p
  rw [← shifted, log2_shiftLeft nonzero]

end Binary

end Trellis
