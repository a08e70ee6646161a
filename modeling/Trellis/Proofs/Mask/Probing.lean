import Trellis.Proofs.Mask.Bits

/-!
# Asking for one token after the other

The safe mask starts with every bit set, and the answer for a token may change its own bit.  So the
mask that is left has one bit for each answer, in the order of the questions, and the tokens are
asked for once each, in ascending order (`safeBy_eq`).  This holds of any way to ask: one that
fails, keeps a state, or gives another answer the next time.  In a vocabulary with more tokens than
there are ids, those without an id are not asked for and keep their bits.
-/

namespace Trellis.Mask

/-- The bit behind `front` becomes the answer for its token, and no other changes. -/
theorem probed_bit {front back : List Bool} {answer : Except ρ String}
    (small : front.length < UInt32.size) :
    (if isSafe answer then (⟨front ++ true :: back⟩ : Mask)
      else set ⟨front ++ true :: back⟩ (.ofNat front.length) false)
      = ⟨front ++ isSafe answer :: back⟩ := by
  have place : (UInt32.ofNat front.length).toNat = front.length := UInt32.toNat_ofNat_of_lt' small
  cases isSafe answer
  · simp [set, place]
  · rfl

section Answers

variable {m : Type → Type} [Monad m] [LawfulMonad m]
  (askText : List TokenId → m (Except ρ String))

/-- Behind the bits that are settled, each question settles the next one. -/
theorem probeIds_eq (front back : List Bool) (count : Nat)
    (small : front.length + count ≤ UInt32.size) :
    probeIds askText ⟨front ++ (List.replicate count true ++ back)⟩
        (List.range' front.length count)
      = (fun answers => ⟨front ++ (answers.map isSafe ++ back)⟩)
        <$> (List.range' front.length count).mapM fun i => askText [.ofNat i] := by
  -- `front` holds the bits that are settled; one more question puts its bit there
  induction count generalizing front with
  | zero => simp [probeIds]
  | succ count ih =>
    simp only [List.range'_succ, List.replicate_succ, List.cons_append, probeIds, List.mapM_cons,
      map_bind, map_pure]
    congr 1
    funext answer
    have longer : (front ++ [isSafe answer]).length = front.length + 1 := List.length_append
    have next := ih (front ++ [isSafe answer]) (by omega)
    simp only [longer, List.append_assoc, List.singleton_append] at next
    rw [probed_bit (by omega), next, map_eq_pure_bind]
    simp

/-- **The safe mask has one bit for each answer.** -/
theorem safeBy_eq (size : Nat) :
    safeBy size askText
      = (fun answers => ⟨answers.map isSafe ++ List.replicate (size - idCount size) true⟩)
        <$> (List.range (idCount size)).mapM fun i => askText [.ofNat i] := by
  have split : size = idCount size + (size - idCount size) := by unfold idCount; omega
  have small : ([] : List Bool).length + idCount size ≤ UInt32.size := by
    show 0 + min size 0xFFFFFFFF ≤ 0x100000000
    omega
  have probed := probeIds_eq askText [] (List.replicate (size - idCount size) true)
    (idCount size) small
  rw [List.replicate_append_replicate, ← split] at probed
  rw [safeBy, allowAll, List.range_eq_range']
  exact probed

theorem safeBy_of_le {size : Nat} (small : size ≤ 0xFFFFFFFF) :
    safeBy size askText
      = (fun answers => ⟨answers.map isSafe⟩)
        <$> (List.range size).mapM fun i => askText [.ofNat i] := by
  rw [safeBy_eq, idCount, Nat.min_eq_left small]
  simp

end Answers

/-! ## Pure tokenizers -/

section Pure

variable (t : Tokenizer ρ)

theorem bits_safe :
    (safe t).value.bits
      = (List.range (idCount t.vocabSize)).map (fun i => isSafe (t.detokenize [.ofNat i]))
        ++ List.replicate (t.vocabSize - idCount t.vocabSize) true := by
  simp only [safe, safeBy_eq, Metered.value_map, Metered.value_mapM, List.map_map]
  rfl

/-- The calls ask for the text of each token that has an id. -/
theorem calls_safe :
    (safe t).calls = (List.range (idCount t.vocabSize)).map fun i => .detokenize [.ofNat i] := by
  simp only [safe, safeBy_eq, Metered.calls_map, Metered.calls_mapM, Tokenizer.askText]
  exact List.map_eq_flatMap.symm

theorem size_safe : (safe t).value.size = t.vocabSize := by
  have enough : idCount t.vocabSize ≤ t.vocabSize := Nat.min_le_left ..
  rw [size, bits_safe, List.length_append, List.length_map, List.length_range,
    List.length_replicate]
  omega

end Pure

end Trellis.Mask
