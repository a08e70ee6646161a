import Trellis.Proofs.Decimal.Shortest
import Trellis.Proofs.Json.Numeral

/-!
# Decimals in positional form

Wherever the point stands among the digits, in front of them or behind them, what is written are two
runs of digits with a point between them, and together they spell the decimal: the digits of both,
read as one number, count the power of ten that the second one is long (`positionalText_spells`).
-/

namespace Trellis

namespace Json.Numeral

theorem value_append (ds es : List Char) : value (ds ++ es) = es.foldl append (value ds) :=
  List.foldl_append

theorem value_zeros_append (n : Nat) (ds : List Char) : value (Layout.zeros n ++ ds) = value ds := by
  induction n with
  | zero => rfl
  | succ n ih => exact ih

theorem value_append_zeros (ds : List Char) (n : Nat) :
    value (ds ++ Layout.zeros n) = value ds * tenTo n := by
  induction n with
  | zero =>
    show value (ds ++ []) = value ds * 1
    rw [List.append_nil, Nat.mul_one]
  | succ n ih =>
    have last : value (ds ++ Layout.zeros n ++ ['0']) = value (ds ++ Layout.zeros n) * 10 := by
      rw [value_append]
      rfl
    rw [Layout.zeros, List.replicate_succ', ← List.append_assoc, ← Layout.zeros, last, ih,
      tenTo_succ, Nat.mul_assoc]

end Json.Numeral

namespace Layout

open Json

theorem isDigit_of_mem_zeros {n : Nat} {c : Char} (h : c ∈ zeros n) : c.isDigit = true := by
  rw [List.eq_of_mem_replicate h]
  decide

/-- Two runs of digits, in front of a point and behind it, that spell a decimal but for its sign. -/
structure Spells (d : Decimal) (whole places : List Char) : Prop where
  led : Numeral.wellLed whole = true
  front : ∀ c ∈ whole, c.isDigit = true
  back : ∀ c ∈ places, c.isDigit = true
  nonempty : places ≠ []
  nearest : ∀ negative, Decimal.nearestBits
    ⟨negative, Numeral.value (whole ++ places), -(places.length : Int)⟩ = d.nearestBits

theorem wellLed_cons {c : Char} (h : c ≠ '0') (cs : List Char) :
    Numeral.wellLed (c :: cs) = true := by
  unfold Numeral.wellLed
  split
  · next e => cases e
  · next e =>
    cases e
    exact absurd rfl h
  · rfl

/-- A decimal in positional form spells itself. -/
theorem positionalText_spells {l : Layout} (point : l.wholePoint = true) {d : Decimal}
    (plain : d.digits = 0 → d.exponent = 0) :
    ∃ whole places, l.positionalText (digits d.digits) d.exponent = whole ++ '.' :: places
      ∧ Spells d whole places := by
  have front : ∀ c ∈ digits d.digits, c.isDigit = true := fun _ => isDigit_of_mem_digits
  unfold positionalText
  rw [if_pos point]
  split
  · next nonneg =>
    -- zeros up to the point, and one behind it
    refine ⟨digits d.digits ++ zeros d.exponent.toNat, ['0'], rfl, ?_⟩
    constructor
    case led =>
      by_cases zero : d.digits = 0
      · rw [zero, plain zero]
        decide
      · obtain ⟨c, ds, first, hc⟩ := head_digits d.digits (Nat.pos_of_ne_zero zero)
        rw [first]
        exact wellLed_cons hc _
    case front =>
      exact List.forall_mem_append.2 ⟨front, fun _ => isDigit_of_mem_zeros⟩
    case back => exact List.forall_mem_singleton.2 rfl
    case nonempty => decide
    case nearest =>
      intro negative
      have spelt : Numeral.value (digits d.digits ++ zeros d.exponent.toNat ++ ['0'])
          = d.digits * tenTo (d.exponent.toNat + 1) := by
        rw [show ['0'] = zeros 1 from rfl, List.append_assoc, zeros, zeros,
          List.replicate_append_replicate, ← zeros, Numeral.value_append_zeros,
          Numeral.value_digits]
      have power : -((['0'].length : Nat) : Int) = d.exponent - (d.exponent.toNat + 1 : Nat) := by
        show -1 = _
        omega
      rw [spelt, power]
      exact Decimal.nearestBits_shift negative _ _ _
  · next below =>
    have places : -(d.exponent.natAbs : Int) = d.exponent := by omega
    dsimp only
    split
    · next among =>
      -- the point stands among the digits, so these are not a zero alone
      have pos : 0 < d.digits := by
        apply Nat.pos_of_ne_zero
        intro zero
        rw [plain zero] at below
        exact below (Int.le_refl 0)
      refine ⟨_, _, rfl, ?_⟩
      constructor
      case led =>
        obtain ⟨c, ds, first, hc⟩ := head_digits d.digits pos
        obtain ⟨k, some⟩ := Nat.exists_eq_add_one.2 (Nat.sub_pos_of_lt among)
        rw [some, first, List.take_succ_cons]
        exact wellLed_cons hc _
      case front => exact fun c hc => front c (List.mem_of_mem_take hc)
      case back => exact fun c hc => front c (List.mem_of_mem_drop hc)
      case nonempty =>
        intro none
        have := congrArg List.length none
        rw [List.length_drop, List.length_nil] at this
        omega
      case nearest =>
        intro negative
        have count : (((digits d.digits).drop ((digits d.digits).length - d.exponent.natAbs)).length
            : Int) = d.exponent.natAbs := by
          rw [List.length_drop]
          omega
        rw [List.take_append_drop, Numeral.value_digits, count, places]
        rfl
    · next before =>
      -- zeros from the point up to the digits
      refine ⟨['0'], _, rfl, ?_⟩
      constructor
      case led => decide
      case front => exact List.forall_mem_singleton.2 rfl
      case back => exact List.forall_mem_append.2 ⟨fun _ => isDigit_of_mem_zeros, front⟩
      case nonempty => exact fun none => digits_ne_nil _ (List.append_eq_nil_iff.1 none).2
      case nearest =>
        intro negative
        have spelt : Numeral.value (['0'] ++ (zeros (d.exponent.natAbs - (digits d.digits).length)
            ++ digits d.digits)) = d.digits := by
          rw [show ['0'] = zeros 1 from rfl, Numeral.value_zeros_append,
            Numeral.value_zeros_append, Numeral.value_digits]
        have count : ((zeros (d.exponent.natAbs - (digits d.digits).length)
            ++ digits d.digits).length : Int) = d.exponent.natAbs := by
          rw [List.length_append, zeros, List.length_replicate]
          omega
        rw [spelt, count, places]
        rfl

end Layout

end Trellis
