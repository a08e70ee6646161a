import Trellis.Defaults.Basic
import Trellis.Proofs.Double

/-!
# Tables in range

A table of defaults is accepted exactly when each entry lies in its own range.
-/

namespace Trellis

/-- Checks in a row succeed when each of them does. -/
theorem seq_eq_ok_iff {ε : Type} {first second : Except ε Unit} :
    (first >>= fun _ => second) = .ok () ↔ first = .ok () ∧ second = .ok () := by
  cases first with
  | error e => exact ⟨nofun, fun h => h.1⟩
  | ok u => exact ⟨fun h => ⟨rfl, h⟩, fun h => h.2⟩

namespace Defaults

/-- Every entry lies in its range. -/
structure InRange (d : Defaults) : Prop where
  chooseThreshold : InUnit d.choose.threshold
  completeThreshold : InUnit d.complete.threshold
  chooseWidth : d.choose.width ≠ 0
  completeWidth : d.complete.width ≠ 0
  beams : d.complete.beams ≠ 0
  diversity : d.complete.diversity.isFinite = true
  repetition : d.complete.repetition.isFinite = true

theorem checkThreshold_eq_ok_iff {entry : Entry} {x : Float} :
    checkThreshold entry x = .ok () ↔ InUnit x := by
  rw [checkThreshold, ← inUnitB_iff]
  split <;> simp_all

theorem checkCount_eq_ok_iff {entry : Entry} {n : UInt32} :
    checkCount entry n = .ok () ↔ n ≠ 0 := by
  rw [checkCount]
  split <;> simp_all

theorem checkWeight_eq_ok_iff {entry : Entry} {x : Float} :
    checkWeight entry x = .ok () ↔ x.isFinite = true := by
  rw [checkWeight]
  split <;> simp_all

theorem validate_eq_ok_iff {d : Defaults} : d.validate = .ok () ↔ d.InRange := by
  unfold validate
  simp only [seq_eq_ok_iff, checkThreshold_eq_ok_iff, checkCount_eq_ok_iff, checkWeight_eq_ok_iff]
  constructor
  · rintro ⟨ct, ft, cw, fw, beams, diversity, repetition⟩
    exact ⟨ct, ft, cw, fw, beams, diversity, repetition⟩
  · rintro ⟨ct, ft, cw, fw, beams, diversity, repetition⟩
    exact ⟨ct, ft, cw, fw, beams, diversity, repetition⟩

end Defaults

end Trellis
