import Trellis.Graph.Violation

/-!
# Finite doubles

A double is told apart by what its bits unpack to.  A number from zero to one is finite: nothing
compares with what is not a number, and infinity exceeds one.
-/

namespace Trellis

open Float.Model (UnpackedFloat)

theorem isNaN_of_isFinite {x : Float} (h : x.isFinite = true) : x.isNaN = false := by
  change x.toModel.unpack.isFinite = true at h
  change x.toModel.unpack.isNaN = false
  cases e : x.toModel.unpack with
  | notANumber => rw [e] at h; cases h
  | infinity sign => rfl
  | zero sign => rfl
  | finite sign mantissa exponent pos => rfl

theorem le_iff_unpack {x y : Float} :
    x ≤ y ↔ UnpackedFloat.le x.toModel.unpack y.toModel.unpack = true :=
  ⟨of_decide_eq_true, decide_eq_true⟩

/-- A double from zero to one, either end and both zeros included. -/
def InUnit (x : Float) : Prop := 0.0 ≤ x ∧ x ≤ 1.0

instance (x : Float) : Decidable (InUnit x) := inferInstanceAs (Decidable (_ ∧ _))

theorem inUnitB_iff {x : Float} : inUnitB x = true ↔ InUnit x := by simp [inUnitB, InUnit]

theorem InUnit.isFinite {x : Float} (h : InUnit x) : x.isFinite = true := by
  obtain ⟨low, high⟩ := h
  rw [le_iff_unpack] at low high
  have zero : (0.0 : Float).toModel.unpack = .zero .positive := rfl
  have one : (1.0 : Float).toModel.unpack = .finite .positive (2 ^ 52) (-52) (by decide) := rfl
  rw [zero] at low
  rw [one] at high
  change x.toModel.unpack.isFinite = true
  cases e : x.toModel.unpack with
  | notANumber => rw [e] at low; cases low
  | infinity sign =>
    rw [e] at low high
    cases sign
    · cases low
    · cases high
  | zero sign => rfl
  | finite sign mantissa exponent pos => rfl

end Trellis
