import Trellis.Mask.Vocabulary

/-!
# Bits of a mask

A mask is read in three ways: bit by bit, as the list of its allowed tokens, and by their number.
The three agree, as long as every bit has an id (`mem_allowedIds_iff`, `length_allowedIds`).  No bit
that is set changes the size of a mask, so the single-character mask covers its vocabulary
(`size_singleChar`).
-/

namespace Trellis.Mask

@[simp] theorem size_set (m : Mask) (id : TokenId) (bit : Bool) : (m.set id bit).size = m.size :=
  List.length_set

@[simp] theorem size_allowNone (size : Nat) : (allowNone size).size = size := List.length_replicate

@[simp] theorem isAllowed_allowNone (size : Nat) (id : TokenId) :
    (allowNone size).isAllowed id = false := by
  rw [isAllowed, allowNone, List.getElem?_replicate]
  split <;> rfl

/-- Setting a bit allows its token, where the vocabulary has it, and changes no other. -/
theorem isAllowed_set_iff {m : Mask} {id other : TokenId} :
    (m.set id true).isAllowed other = true
      ↔ m.isAllowed other = true ∨ other = id ∧ id.toNat < m.size := by
  rw [isAllowed, set, List.getElem?_set]
  by_cases same : id.toNat = other.toNat
  · have same' : other = id := (UInt32.toNat_inj.1 same).symm
    subst same'
    by_cases inside : other.toNat < m.bits.length
    · simp [inside, size]
    · simp [inside, size, isAllowed]
  · have other' : ¬ other = id := fun e => same (congrArg UInt32.toNat e.symm)
    simp [same, other', isAllowed]

/-! ## The allowed tokens -/

theorem length_allowedIds (m : Mask) : m.allowedIds.length = m.allowedCount := by
  have numbered : m.bits.countP id = m.bits.zipIdx.countP (id ∘ Prod.fst) := by
    rw [← List.countP_map, List.zipIdx_map_fst]
  rw [allowedIds, List.length_filterMap_eq_countP, allowedCount, numbered]
  apply List.countP_congr
  intro p _
  cases h : p.1 <;> simp [h]

theorem isAllowed_iff {m : Mask} {id : TokenId} :
    m.isAllowed id = true ↔ m.bits[id.toNat]? = some true := by
  rw [isAllowed]
  cases m.bits[id.toNat]? <;> simp

section Numbered

variable {m : Mask} (small : m.size ≤ UInt32.size)

include small

/-- Every bit has an id. -/
theorem toNat_ofNat_of_lt {i : Nat} (inside : i < m.size) : (UInt32.ofNat i).toNat = i :=
  UInt32.toNat_ofNat_of_lt' (Nat.lt_of_lt_of_le inside small)

theorem mem_allowedIds_iff {id : TokenId} : id ∈ m.allowedIds ↔ m.isAllowed id = true := by
  rw [allowedIds, List.mem_filterMap, isAllowed_iff]
  constructor
  · rintro ⟨⟨bit, i⟩, listed, kept⟩
    rw [List.mem_zipIdx_iff_getElem?] at listed
    obtain ⟨inside, _⟩ := List.getElem?_eq_some_iff.1 listed
    simp only [Option.ite_none_right_eq_some, Option.some.injEq] at kept
    obtain ⟨rfl, rfl⟩ := kept
    rw [toNat_ofNat_of_lt small inside]
    exact listed
  · intro listed
    exact ⟨(true, id.toNat), List.mem_zipIdx_iff_getElem?.2 listed, by simp⟩

/-- The allowed tokens are listed in ascending order, none of them twice. -/
theorem allowedIds_ascending : m.allowedIds.Pairwise (· < ·) := by
  have indices : m.bits.zipIdx.Pairwise fun p q => p.2 < q.2 := by
    have numbers : (m.bits.zipIdx.map Prod.snd).Pairwise (· < ·) := by
      rw [List.zipIdx_map_snd]
      exact List.pairwise_lt_range'
    exact List.pairwise_map.1 numbers
  rw [allowedIds, List.pairwise_filterMap]
  apply indices.imp_of_mem
  rintro ⟨bit, i⟩ ⟨bit', j⟩ _ hj lt id kept id' kept'
  obtain ⟨inside, _⟩ := List.getElem?_eq_some_iff.1 (List.mem_zipIdx_iff_getElem?.1 hj)
  simp only [Option.ite_none_right_eq_some, Option.some.injEq] at kept kept'
  obtain ⟨_, rfl⟩ := kept
  obtain ⟨_, rfl⟩ := kept'
  rw [UInt32.lt_iff_toNat_lt, toNat_ofNat_of_lt small inside,
    toNat_ofNat_of_lt small (Nat.lt_trans lt inside)]
  exact lt

theorem nodup_allowedIds : m.allowedIds.Nodup :=
  (allowedIds_ascending small).imp fun lt => UInt32.ne_of_lt lt

end Numbered

/-! ## Asking for characters -/

theorem size_probeChars (t : Tokenizer ρ) (m : Mask) (cs : List Char) :
    (probeChars t m cs).value.size = m.size := by
  induction cs generalizing m with
  | nil => rfl
  | cons c cs ih =>
    rw [probeChars, Metered.value_bind, ih]
    split
    · exact size_set m _ _
    · rfl

theorem size_singleChar (t : Tokenizer ρ) : (singleChar t).value.size = t.vocabSize := by
  rw [singleChar, size_probeChars, size_allowNone]

end Trellis.Mask
