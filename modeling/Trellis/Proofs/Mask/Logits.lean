import Trellis.Proofs.Mask.Bits

/-!
# Masks applied to logits

What a mask leaves of logits is settled place by place: an allowed logit is kept as it is and every
other becomes negative infinity (`getElem?_block`).  So of two masks applied one after the other it
does not matter which comes first, and both together rule out what the mask of their common tokens
does (`block_block`).  Logits of another number than the bits are refused as they are, by each of
two masks of one size in the same way, so the same laws hold of them (`apply_in_place`).
-/

namespace Trellis.Mask

/-- The tokens that two masks allow both, bit by bit. -/
def both (a b : Mask) : Mask := ⟨List.zipWith (· && ·) a.bits b.bits⟩

/-! ## Common tokens -/

theorem isAllowed_both (a b : Mask) (id : TokenId) :
    (a.both b).isAllowed id = (a.isAllowed id && b.isAllowed id) := by
  simp only [isAllowed, both, List.getElem?_zipWith]
  cases a.bits[id.toNat]? <;> cases b.bits[id.toNat]? <;> simp

theorem both_comm (a b : Mask) : a.both b = b.both a := by
  rw [both, both, List.zipWith_comm]
  simp only [Bool.and_comm]

theorem both_self (a : Mask) : a.both a = a := by
  simp [both]

theorem size_both {a b : Mask} (same : b.size = a.size) : (a.both b).size = a.size := by
  rw [size, size] at same
  simp [size, both, same]

/-! ## Logits place by place -/

/-- The logit of a token that is not allowed is negative infinity. -/
theorem isInf_blocked : blocked.isInf = true ∧ blocked < 0.0 := by decide

theorem length_block (bits : List Bool) (logits : List Float32) :
    (block bits logits).length = logits.length := by
  fun_induction block bits logits with
  | case1 bit bits x logits ih => rw [List.length_cons, List.length_cons, ih]
  | case2 => rfl

/-- Each logit is settled by its own bit. -/
theorem getElem?_block (bits : List Bool) (logits : List Float32) (i : Nat) :
    (block bits logits)[i]? =
      logits[i]?.map fun x => if bits[i]? = some false then blocked else x := by
  fun_induction block bits logits generalizing i with
  | case1 bit bits x logits ih =>
    cases i with
    | zero => cases bit <;> rfl
    | succ i => simpa using ih i
  | case2 bits logits other =>
    cases bits with
    | nil => simp
    | cons bit bits =>
      cases logits with
      | nil => rfl
      | cons x logits => exact absurd rfl (other _ _ _ _ rfl)

/-- Two masks one after the other rule out what either does. -/
theorem block_block {front back : List Bool} (same : back.length = front.length)
    (logits : List Float32) :
    block back (block front logits) = block (List.zipWith (· && ·) front back) logits := by
  apply List.ext_getElem?
  intro i
  simp only [getElem?_block, Option.map_map, List.getElem?_zipWith]
  congr 1
  funext x
  by_cases inside : i < front.length
  · have inside' : i < back.length := same ▸ inside
    simp only [List.getElem?_eq_getElem, inside, inside']
    cases front[i] <;> cases back[i] <;> simp
  · have outside : front.length ≤ i := Nat.le_of_not_lt inside
    simp [outside, same]

/-! ## Applying a mask -/

section Apply

variable {a b : Mask} {logits : List Float32}

theorem apply_of_length (fits : logits.length = a.size) :
    a.apply logits = (block a.bits logits, .ok ()) := if_pos fits

/-- Logits of another number than the bits are refused and stay as they were. -/
theorem apply_of_mismatch (other : logits.length ≠ a.size) :
    a.apply logits = (logits, .error ⟨logits.length, a.size⟩) := if_neg other

/-- **Two masks of one size** have together the effect of the mask of their common tokens. -/
theorem apply_apply (same : b.size = a.size) (logits : List Float32) :
    b.apply (a.apply logits).1 = (a.both b).apply logits := by
  by_cases fits : logits.length = a.size
  · have still : (block a.bits logits).length = b.size := by rw [length_block, fits, same]
    have whole : logits.length = (a.both b).size := by rw [size_both same, fits]
    rw [apply_of_length fits, apply_of_length still, apply_of_length whole, block_block same]
    rfl
  · have other : logits.length ≠ b.size := same ▸ fits
    have whole : logits.length ≠ (a.both b).size := size_both same ▸ fits
    rw [apply_of_mismatch fits, apply_of_mismatch other, apply_of_mismatch whole, size_both same,
      same]

/-- A logit is kept where the mask allows its token. -/
theorem getElem?_apply (small : a.size ≤ UInt32.size) (fits : logits.length = a.size) {i : Nat}
    (inside : i < logits.length) :
    (a.apply logits).1[i]? = some (if a.isAllowed (.ofNat i) then logits[i] else blocked) := by
  have place : (UInt32.ofNat i).toNat = i := by
    apply toNat_ofNat_of_lt small
    omega
  have covered : i < a.bits.length := by
    show i < a.size
    omega
  rw [apply_of_length fits, getElem?_block, List.getElem?_eq_getElem inside, Option.map_some,
    isAllowed, place, List.getElem?_eq_getElem covered, Option.getD_some]
  cases a.bits[i] <;> rfl

end Apply

/-- **Masks are applied in place.**  In either order two masks of one size leave what the mask of
their common tokens leaves, and a mask applied again changes nothing.  Logits of the right number
keep what is allowed and have negative infinity for the rest; others are refused as they are.  The
allowed tokens are those whose bits are set, in ascending order, as many as are counted. -/
theorem apply_in_place {a b : Mask} (same : b.size = a.size) (small : a.size ≤ 0xFFFFFFFF)
    (logits : List Float32) :
    b.apply (a.apply logits).1 = a.apply (b.apply logits).1
    ∧ b.apply (a.apply logits).1 = (a.both b).apply logits
    ∧ (∀ id, (a.both b).isAllowed id = (a.isAllowed id && b.isAllowed id))
    ∧ a.apply (a.apply logits).1 = a.apply logits
    ∧ (logits.length = a.size → (a.apply logits).2 = .ok ()
      ∧ (a.apply logits).1.length = logits.length
      ∧ ∀ i (inside : i < logits.length), (a.apply logits).1[i]?
        = some (if a.isAllowed (.ofNat i) then logits[i] else blocked))
    ∧ (blocked.isInf = true ∧ blocked < 0.0)
    ∧ (logits.length ≠ a.size → a.apply logits = (logits, .error ⟨logits.length, a.size⟩))
    ∧ a.allowedIds.Pairwise (· < ·)
    ∧ (∀ id, id ∈ a.allowedIds ↔ a.isAllowed id = true)
    ∧ a.allowedIds.length = a.allowedCount := by
  have numbered : a.size ≤ UInt32.size := Nat.le_trans small (by decide)
  refine ⟨?_, apply_apply same logits, isAllowed_both a b, ?_, ?_, isInf_blocked,
    apply_of_mismatch, allowedIds_ascending numbered, fun id => mem_allowedIds_iff numbered,
    length_allowedIds a⟩
  · rw [apply_apply same, apply_apply same.symm, both_comm]
  · rw [apply_apply rfl, both_self]
  · intro fits
    refine ⟨?_, ?_, fun i inside => getElem?_apply numbered fits inside⟩
    · rw [apply_of_length fits]
    · rw [apply_of_length fits, length_block]

/-- Two masks that allow three of four tokens each, and logits one of which is not a number. -/
theorem apply_in_place_crossing :
    let a : Mask := ⟨[true, false, true, true]⟩
    let b : Mask := ⟨[true, true, false, true]⟩
    b.size = a.size ∧ a.size ≤ 0xFFFFFFFF
    ∧ b.apply (a.apply [1.5, -2.0, 0.25, 0.0 / 0.0]).1
      = ([1.5, blocked, blocked, 0.0 / 0.0], .ok ())
    ∧ a.apply [1.5] = ([1.5], .error ⟨1, 4⟩)
    ∧ a.allowedIds.length = 3 := by
  intro a b
  have same : b.size = a.size := rfl
  have small : a.size ≤ 0xFFFFFFFF := by decide
  obtain ⟨-, common, -⟩ := apply_in_place same small [1.5, -2.0, 0.25, 0.0 / 0.0]
  obtain ⟨-, -, -, -, -, -, refused, -, -, count⟩ := apply_in_place same small [1.5]
  exact ⟨same, small, common, refused (by decide), count⟩

end Trellis.Mask
