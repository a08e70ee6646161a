import Mathlib.Data.List.Basic

/-!
# Lists in descending order of a key

A stable sort is known by two things: its result is in order, and the members with one key stand as
they stood.  No two lists agree on both (`eq_of_descending`), so whatever keeps them is the sort
(`eq_descending`).  This is how a sort is seen to pass over what is done to the list before: members
may be left out before the sort or after it (`filter_descending`), and parts of the list may be
sorted already (`descending_flatMap`).
-/

namespace Trellis

variable {α : Type u} {β : Type v}

/-- The list by a key, the greatest first; what has one key keeps its order. -/
def descending (key : α → Int) (xs : List α) : List α :=
  xs.mergeSort fun a b => decide (key b ≤ key a)

/-- The members at one place of the order, as they stand. -/
def atPlace (key : α → Int) (place : Int) (xs : List α) : List α :=
  xs.filter fun a => key a = place

theorem atPlace_flatMap (key : β → Int) (place : Int) (xs : List α) (f : α → List β) :
    atPlace key place (xs.flatMap f) = xs.flatMap fun a => atPlace key place (f a) :=
  List.filter_flatMap

section Sorting

variable {key : α → Int}

theorem key_trans (a b c : α) (hab : decide (key b ≤ key a) = true)
    (hbc : decide (key c ≤ key b) = true) : decide (key c ≤ key a) = true := by
  simp only [decide_eq_true_eq] at hab hbc ⊢
  omega

theorem key_total (a b : α) : (decide (key b ≤ key a) || decide (key a ≤ key b)) = true := by
  simp only [Bool.or_eq_true, decide_eq_true_eq]
  omega

theorem descending_perm (xs : List α) : (descending key xs).Perm xs := List.mergeSort_perm xs _

theorem pairwise_descending (xs : List α) :
    (descending key xs).Pairwise fun a b => key b ≤ key a :=
  (List.pairwise_mergeSort key_trans key_total xs).imp of_decide_eq_true

/-- The sort is stable. -/
theorem atPlace_descending (xs : List α) (place : Int) :
    atPlace key place (descending key xs) = atPlace key place xs := by
  -- the members at one place are sorted as they stand, so the sort does not move them
  have sorted : (atPlace key place xs).Pairwise fun a b => decide (key b ≤ key a) = true := by
    rw [atPlace, List.pairwise_filter]
    apply List.pairwise_of_forall
    intro a b ha hb
    simp only [decide_eq_true_eq] at ha hb ⊢
    omega
  have kept : (atPlace key place xs).Sublist (descending key xs) :=
    List.sublist_mergeSort key_trans key_total sorted List.filter_sublist
  have inside := kept.filter fun a => key a = place
  rw [atPlace, List.filter_filter] at inside
  simp only [Bool.and_self] at inside
  exact (inside.eq_of_length ((descending_perm xs).filter _).length_eq.symm).symm

/-- A list in order starts no lower than another one that agrees with it at every place. -/
theorem le_head_of_same {x y : α} {xs ys : List α}
    (sorted : (y :: ys).Pairwise fun a b => key b ≤ key a)
    (same : ∀ place, atPlace key place (x :: xs) = atPlace key place (y :: ys)) :
    key x ≤ key y := by
  have listed : x ∈ atPlace key (key x) (y :: ys) := by
    rw [← same]
    exact List.mem_filter.2 ⟨List.mem_cons_self, decide_eq_true rfl⟩
  rcases List.mem_cons.1 (List.mem_of_mem_filter listed) with rfl | later
  · exact Int.le_refl _
  · exact List.rel_of_pairwise_cons sorted later

/-- Two lists in order that agree at every place are the same. -/
theorem eq_of_descending {xs ys : List α} (hxs : xs.Pairwise fun a b => key b ≤ key a)
    (hys : ys.Pairwise fun a b => key b ≤ key a)
    (same : ∀ place, atPlace key place xs = atPlace key place ys) : xs = ys := by
  induction xs generalizing ys with
  | nil =>
    cases ys with
    | nil => rfl
    | cons y ys => simpa [atPlace] using same (key y)
  | cons x xs ih =>
    cases ys with
    | nil => simpa [atPlace] using same (key x)
    | cons y ys =>
      -- the heads share a place and come first there, so they are the same
      have level : key x = key y := Int.le_antisymm (le_head_of_same hys same)
        (le_head_of_same hxs fun place => (same place).symm)
      have heads := same (key x)
      simp only [atPlace, List.filter_cons, level, decide_true, if_true, List.cons.injEq] at heads
      obtain ⟨rfl, _⟩ := heads
      congr 1
      apply ih hxs.tail hys.tail
      intro place
      have whole := same place
      simp only [atPlace, List.filter_cons] at whole ⊢
      split at whole
      · exact List.tail_eq_of_cons_eq whole
      · exact whole

/-- A list in order with the members of `xs`, which stand at every place as they do there, is the
sort of `xs`. -/
theorem eq_descending {xs ys : List α} (sorted : ys.Pairwise fun a b => key b ≤ key a)
    (same : ∀ place, atPlace key place ys = atPlace key place xs) : ys = descending key xs := by
  apply eq_of_descending sorted (pairwise_descending xs)
  intro place
  rw [same, atPlace_descending]

/-- Members may be left out before the sort or after it. -/
theorem filter_descending (p : α → Bool) (xs : List α) :
    (descending key xs).filter p = descending key (xs.filter p) := by
  apply eq_descending ((pairwise_descending xs).filter p)
  intro place
  have swap : ∀ zs : List α, atPlace key place (zs.filter p) = (atPlace key place zs).filter p := by
    intro zs
    simp only [atPlace, List.filter_filter, Bool.and_comm]
  rw [swap, swap, atPlace_descending]

/-- Parts of the list may be sorted before the whole is. -/
theorem descending_flatMap (xs : List β) (f : β → List α) :
    descending key (xs.flatMap fun b => descending key (f b))
      = descending key (xs.flatMap f) := by
  apply eq_descending (pairwise_descending _)
  intro place
  rw [atPlace_descending, atPlace_flatMap, atPlace_flatMap]
  simp only [atPlace_descending]

/-- A map that keeps the keys may come before the sort or after it. -/
theorem map_descending {other : β → Int} {f : α → β} (keeps : ∀ a, other (f a) = key a)
    (xs : List α) : (descending key xs).map f = descending other (xs.map f) := by
  apply List.map_mergeSort
  intro a _ b _
  rw [keeps, keeps]

end Sorting

end Trellis
