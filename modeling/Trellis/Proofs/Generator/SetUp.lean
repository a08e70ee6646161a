import Trellis.Generator
import Trellis.Proofs.Defaults.Basic
import Trellis.Proofs.Mask.Probing

/-!
# Generators that are set up

However a generator is set up, its table of defaults has been checked and its masks cover the
vocabulary of its tokenizer, so that these two checks of every compilation succeed
(`IsSetUp.inRange`, `IsSetUp.covers`).
-/

namespace Trellis.Generator

variable {σ ρ : Type}

/-- A generator with masks of its own tokenizer, or with masks built earlier. -/
inductive IsSetUp (g : Generator σ ρ) : Prop
  | new {t : Tokenizer ρ} {o : Oracle σ} {d : Defaults} (h : (new t o d).value = .ok g)
  | withMasks {t : Tokenizer ρ} {o : Oracle σ} {d : Defaults} {masks : VocabMasks}
      (h : withMasks t o d masks = .ok g)

variable {g : Generator σ ρ} {t : Tokenizer ρ} {o : Oracle σ} {d : Defaults}

theorem of_new (h : (Generator.new t o d).value = .ok g) :
    d.InRange ∧ g = ⟨t, o, d, (VocabMasks.build t).value⟩ := by
  unfold Generator.new at h
  split at h
  · cases h
  · next valid =>
    cases h
    exact ⟨Defaults.validate_eq_ok_iff.1 valid, rfl⟩

theorem of_withMasks {masks : VocabMasks} (h : Generator.withMasks t o d masks = .ok g) :
    d.InRange ∧ masks.vocabSize = t.vocabSize ∧ g = ⟨t, o, d, masks⟩ := by
  unfold Generator.withMasks at h
  split at h
  · cases h
  · next valid =>
    split at h
    · next size =>
      cases h
      exact ⟨Defaults.validate_eq_ok_iff.1 valid, size, rfl⟩
    · cases h

theorem IsSetUp.inRange (h : g.IsSetUp) : g.defaults.InRange := by
  cases h with
  | new h =>
    obtain ⟨table, rfl⟩ := of_new h
    exact table
  | withMasks h =>
    obtain ⟨table, _, rfl⟩ := of_withMasks h
    exact table

theorem IsSetUp.covers (h : g.IsSetUp) : g.masks.safe.size = g.tokenizer.vocabSize := by
  cases h with
  | new h =>
    obtain ⟨_, rfl⟩ := of_new h
    exact Mask.size_safe _
  | withMasks h =>
    obtain ⟨_, size, rfl⟩ := of_withMasks h
    exact size

end Trellis.Generator
