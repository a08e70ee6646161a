import Trellis.Proofs.Decimal.Basic
import Trellis.Proofs.Double.Bounds
import Trellis.Proofs.Json.RoundTrip

/-!
# Numbers that are read are finite

A numeral is read as a significand of sixty-four bits, taken as a double and scaled by a power of
ten.  A product is refused where it is infinite, and a quotient cannot be, since the powers that are
divided by are at least one.  So every number in a value that is read is a finite double
(`finite_of_read?`), whatever the text.
-/

namespace Trellis

theorem twoTo_eq (n : Nat) : twoTo n = 2 ^ n := rfl

namespace Binary

/-- The quotient that is rounded has its leading digit in place. -/
theorem significand_bounds {n : Nat} (nonzero : n ≠ 0) (p : Nat) :
    2 ^ 52 ≤ n * twoTo (p + 52) / twoTo (n.log2 + p)
      ∧ n * twoTo (p + 52) / twoTo (n.log2 + p) < 2 ^ 53 := by
  obtain ⟨low, high⟩ := (Nat.log2_eq_iff nonzero).1 rfl
  rw [twoTo_eq, twoTo_eq, Nat.le_div_iff_mul_le (Nat.two_pow_pos _),
    Nat.div_lt_iff_lt_mul (Nat.two_pow_pos _), ← Nat.pow_add, ← Nat.pow_add,
    show 52 + (n.log2 + p) = n.log2 + (p + 52) by omega,
    show 53 + (n.log2 + p) = n.log2 + 1 + (p + 52) by omega, Nat.pow_add 2 n.log2,
    Nat.pow_add 2 (n.log2 + 1)]
  constructor
  · exact Nat.mul_le_mul_right _ low
  · exact Nat.mul_lt_mul_of_pos_right high (Nat.two_pow_pos _)

/-- A natural number below the largest power of two among the doubles is rounded to a finite
pattern, and to one that is not below that of one. -/
theorem nearestBits_bounds {n : Nat} (nonzero : n ≠ 0) (size : n.log2 < 1023) :
    1023 * 0x10000000000000 ≤ nearestBits n 1 ∧ nearestBits n 1 < infinityBits := by
  have top : infinityBits = 2047 * 0x10000000000000 := rfl
  have shift : n.log2 + 1074 - 52 = n.log2 + 1022 := by omega
  have pattern : nearestBits n 1 = (n.log2 + 1022) * 0x10000000000000
      + divNearest (n * twoTo 1074) (twoTo (n.log2 + 1022)) := by
    rw [nearestBits, Nat.div_one, log2_mul_twoTo nonzero, shift, Nat.one_mul]
    rfl
  have quotient : 2 ^ 52 ≤ n * twoTo 1074 / twoTo (n.log2 + 1022)
      ∧ n * twoTo 1074 / twoTo (n.log2 + 1022) < 2 ^ 53 := significand_bounds nonzero 1022
  have rounded := divNearest_bounds (n * twoTo 1074) (twoTo (n.log2 + 1022))
  omega

end Binary

namespace Json

namespace Numeral

/-- Every power of ten among the doubles is at least one. -/
theorem atLeastOne_tenthPower {k : Nat} (h : k ≤ topPower) : AtLeastOne (tenthPower k) := by
  by_cases last : k = topPower
  · subst last
    exact atLeastOne_ofBits (by decide +kernel) (by decide +kernel)
  · have below : k ≤ 307 := Nat.le_of_lt_succ (Nat.lt_of_le_of_ne h last)
    have nonzero : tenTo k ≠ 0 := Nat.ne_of_gt (Nat.pow_pos (by decide))
    have size : (tenTo k).log2 < 1023 := by
      have top : tenTo 307 < twoTo 1023 := by decide +kernel
      exact (log2_lt_iff nonzero).2 (Nat.lt_of_le_of_lt (tenTo_le below) top)
    have whole : Decimal.nearestBits ⟨false, 1, k⟩ = Binary.nearestBits (tenTo k) 1 := by
      have width : Decimal.width ⟨false, 1, k⟩ = 1 := by
        exact (by decide : (if 1 = 0 then 0 else (Nat.toDigits 10 1).length) = 1)
      rw [Decimal.nearestBits, width]
      dsimp only
      rw [if_neg (by decide), if_neg (by omega), if_neg (by omega), if_neg (by omega),
        Int.natAbs_natCast, Nat.one_mul]
    obtain ⟨low, high⟩ := Binary.nearestBits_bounds nonzero size
    rw [← whole] at low high
    exact atLeastOne_ofBits low high

/-- Digits are taken up only as long as the significand fits. -/
theorem takeUp_lt {n : Nat} (h : n < bound) (ds : List Char) : (takeUp n ds).1 < bound := by
  induction ds generalizing n with
  | nil => exact h
  | cons c ds ih =>
    rw [takeUp]
    split
    · next fits => exact ih fits
    · exact h

theorem scientific_lt (n : Numeral) : n.scientific.1 < bound :=
  takeUp_lt (takeUp_lt (by decide) n.whole) n.places

/-- A significand that is scaled stays finite. -/
theorem isFinite_of_scale? {x y : Float} {power : Int} (h : UpTo 14 x.toModel.unpack)
    (scaled : scale? x power = some y) : y.isFinite = true := by
  unfold scale? at scaled
  dsimp only at scaled
  split at scaled
  · split at scaled
    · split at scaled
      · next finite =>
        cases scaled
        exact finite
      · cases scaled
    · split at scaled
      · cases scaled
        exact h.isFinite
      · cases scaled
  · split at scaled
    · next small =>
      cases scaled
      exact (h.div (atLeastOne_tenthPower small) (by decide) (by decide)).isFinite
    · split at scaled
      · next twice =>
        cases scaled
        have first := h.div (atLeastOne_tenthPower (Nat.le_refl topPower)) (by decide) (by decide)
        have second : power.natAbs - topPower ≤ topPower := by omega
        exact (first.div (atLeastOne_tenthPower second) (by decide) (by decide)).isFinite
      · cases scaled
        decide

theorem isFinite_of_toFloat? {n : Numeral} {x : Float} (h : n.toFloat? = some x) :
    x.isFinite = true := by
  rw [toFloat?] at h
  obtain ⟨y, scaled, rfl⟩ := Option.map_eq_some_iff.1 h
  have finite := isFinite_of_scale? (upTo_ofNat n.scientific_lt) scaled
  split
  · exact isFinite_neg finite
  · exact finite

end Numeral

/-- A number that is finite as a double. -/
def Number.Finite (n : Number) : Prop := n.toFloat.isFinite = true

theorem Number.finite_of_ofNumeral? {m : Numeral} {n : Number} (h : ofNumeral? m = some n) :
    n.Finite := by
  unfold ofNumeral? at h
  dsimp only at h
  split at h
  · next natural =>
    cases h
    exact (upTo_ofNat natural.2.2).isFinite
  · split at h
    · next negative =>
      cases h
      have size := Nat.lt_of_le_of_lt negative.2.2.2 (by decide : 0x8000000000000000 < 2 ^ 64)
      exact isFinite_neg (upTo_ofNat size).isFinite
    · obtain ⟨x, read, rfl⟩ := Option.map_eq_some_iff.1 h
      exact Numeral.isFinite_of_toFloat? read

namespace Value

mutual

/-- A value holds the numbers that its syntax tree spells. -/
theorem finite_of_ofDoc? : (d : Doc) → {v : Value} → ofDoc? d = some v →
    ∀ n ∈ v.numbers, n.Finite
  | .null, _, h | .bool _, _, h => by cases h; exact nofun
  | .number m, _, h => by
    obtain ⟨n, read, rfl⟩ := Option.map_eq_some_iff.1 h
    exact List.forall_mem_singleton.2 (Number.finite_of_ofNumeral? read)
  | .string s, _, h => by
    obtain ⟨text, _, rfl⟩ := Option.map_eq_some_iff.1 h
    exact nofun
  | .array ds, _, h => by
    rw [ofDoc?] at h
    obtain ⟨vs, items, rfl⟩ := Option.map_eq_some_iff.1 h
    exact finite_of_ofItems? ds items
  | .object ms, _, h => by
    rw [ofDoc?] at h
    obtain ⟨vs, members, rfl⟩ := Option.map_eq_some_iff.1 h
    exact finite_of_ofMembers? ms members

theorem finite_of_ofItems? : (ds : List Doc) → {vs : List Value} → ofItems? ds = some vs →
    ∀ n ∈ itemNumbers vs, n.Finite
  | [], _, h => by cases h; exact nofun
  | d :: ds, _, h => by
    obtain ⟨v, first, h⟩ := Option.bind_eq_some_iff.1 h
    obtain ⟨vs, rest, rfl⟩ := Option.map_eq_some_iff.1 h
    rw [itemNumbers, List.forall_mem_append]
    exact ⟨finite_of_ofDoc? d first, finite_of_ofItems? ds rest⟩

theorem finite_of_ofMembers? : (ms : List (Key × Doc)) → {vs : List (String × Value)} →
    ofMembers? ms = some vs → ∀ n ∈ memberNumbers vs, n.Finite
  | [], _, h => by cases h; exact nofun
  | (k, d) :: ms, _, h => by
    obtain ⟨key, _, h⟩ := Option.bind_eq_some_iff.1 h
    obtain ⟨v, first, h⟩ := Option.bind_eq_some_iff.1 h
    obtain ⟨vs, rest, rfl⟩ := Option.map_eq_some_iff.1 h
    rw [memberNumbers, List.forall_mem_append]
    exact ⟨finite_of_ofDoc? d first, finite_of_ofMembers? ms rest⟩

end

/-- **Every number of a value that is read is finite.** -/
theorem finite_of_read? {cs : List Char} {v : Value} (h : read? cs = some v) :
    ∀ n ∈ v.numbers, n.Finite := by
  unfold read? readWithin? at h
  split at h
  · next d _ => exact finite_of_ofDoc? d h
  · cases h

end Value

end Json

end Trellis
