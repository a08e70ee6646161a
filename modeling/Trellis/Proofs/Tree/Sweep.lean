import Trellis.Tree.Basic

/-!
# Sweeps in any order

The number of leaves and the depth of a tree are found by a stack: as long as something is pending,
one item is visited and what is below it is pending instead.  Which item is taken and where the
others are put makes no difference.  A visit is therefore a relation here (`Sweep.Visit`), between
lists up to their order; what a visit keeps is stated once (`Sweep.Measured`), and from it follow
the number of visits and the result of every sweep (`Sweep.Measured.finds`).
-/

namespace Trellis

/-- A number that is kept while items are visited, and the items below each item. -/
structure Sweep (ι : Type u) where
  visit : Nat → ι → Nat
  below : ι → List ι

namespace Sweep

variable {ι : Type u}

/-- One visit: any pending item is taken, and those below it are pending in its place. -/
inductive Visit (s : Sweep ι) : Nat × List ι → Nat × List ι → Prop
  | take {found : Nat} {pending rest later : List ι} {item : ι} (taken : pending.Perm (item :: rest))
      (put : later.Perm (s.below item ++ rest)) :
      Visit s (found, pending) (s.visit found item, later)

/-- So many visits in a row. -/
inductive Run (s : Sweep ι) : Nat → Nat × List ι → Nat × List ι → Prop
  | none {state : Nat × List ι} : Run s 0 state state
  | visit {n : Nat} {state next last : Nat × List ι} (first : s.Visit state next)
      (later : Run s n next last) : Run s (n + 1) state last

/-- Every sweep from here makes the same number of visits and finds the same number: it goes on as
long as something is pending, whatever is visited first. -/
structure Finds (s : Sweep ι) (start : List ι) (visits result : Nat) : Prop where
  goesOn : ∀ {n found pending}, s.Run n (0, start) (found, pending) → pending ≠ [] →
    n < visits ∧ ∃ next, s.Visit (found, pending) next
  ends : ∀ {n found}, s.Run n (0, start) (found, []) → n = visits ∧ found = result

/-- The visits that pending items still take, and what will be found in the end. -/
structure Measured (s : Sweep ι) (weight : List ι → Nat) (worth : Nat → List ι → Nat) : Prop where
  weight_perm : ∀ {pending later}, pending.Perm later → weight pending = weight later
  worth_perm : ∀ {found pending later}, pending.Perm later → worth found pending = worth found later
  weight_visit : ∀ item rest, weight (item :: rest) = weight (s.below item ++ rest) + 1
  worth_visit : ∀ found item rest,
    worth found (item :: rest) = worth (s.visit found item) (s.below item ++ rest)
  weight_nil : weight [] = 0
  worth_nil : ∀ found, worth found [] = found

namespace Measured

variable {s : Sweep ι} {weight : List ι → Nat} {worth : Nat → List ι → Nat}
  (measured : s.Measured weight worth)

include measured

/-- A visit is one of those still to make, and does not change what will be found. -/
theorem of_visit {found found' : Nat} {pending later : List ι}
    (visit : s.Visit (found, pending) (found', later)) :
    weight pending = weight later + 1 ∧ worth found pending = worth found' later := by
  cases visit with
  | take taken put =>
    rw [measured.weight_perm taken, measured.weight_perm put, measured.worth_perm taken,
      measured.worth_perm put]
    exact ⟨measured.weight_visit _ _, measured.worth_visit _ _ _⟩

theorem of_run {n : Nat} {state last : Nat × List ι} (run : s.Run n state last) :
    weight state.2 = weight last.2 + n ∧ worth state.1 state.2 = worth last.1 last.2 := by
  induction run with
  | none => exact ⟨rfl, rfl⟩
  | visit first later ih =>
    obtain ⟨lighter, same⟩ := measured.of_visit first
    rw [lighter, same, ih.1, ih.2]
    exact ⟨rfl, rfl⟩

/-- **Whatever is visited first**, a sweep makes the visits that are pending at its start and finds
what they are worth. -/
theorem finds (start : List ι) : s.Finds start (weight start) (worth 0 start) := by
  constructor
  · intro n found pending run more
    obtain ⟨left, _⟩ := measured.of_run run
    obtain ⟨item, rest, rfl⟩ := List.exists_cons_of_ne_nil more
    have := measured.weight_visit item rest
    exact ⟨by simp only at left; omega, _, .take (.refl _) (.refl _)⟩
  · intro n found run
    obtain ⟨left, same⟩ := measured.of_run run
    simp only [measured.weight_nil, measured.worth_nil] at left same
    exact ⟨by omega, same.symm⟩

end Measured

/-- What is gathered item by item, by an operation that commutes, is the same in any order. -/
theorem gathered_perm {own : ι → Nat} {gather : Nat → Nat → Nat} {total : List ι → Nat}
    (commutes : ∀ a b c, gather a (gather b c) = gather b (gather a c))
    (gathered : ∀ item rest, total (item :: rest) = gather (own item) (total rest))
    {pending later : List ι} (same : pending.Perm later) : total pending = total later := by
  induction same with
  | nil => rfl
  | cons item _ ih => rw [gathered, gathered, ih]
  | swap item other rest => rw [gathered, gathered, gathered, gathered, commutes]
  | trans _ _ first later => exact first.trans later

end Sweep

namespace Tree

variable {α : Type u}

/-! ## Leaves -/

/-- The leaves are counted. -/
def leafSweep : Sweep (Tree α) where
  visit count t := if t.isLeaf then count + 1 else count
  below := children

theorem sizeAll_perm {ts us : List (Tree α)} (same : ts.Perm us) : sizeAll ts = sizeAll us :=
  Sweep.gathered_perm Nat.add_left_comm sizeAll_cons same

theorem leavesAll_cons (t : Tree α) (ts : List (Tree α)) :
    leavesAll (t :: ts) = t.leaves + leavesAll ts := by simp only [leavesAll]

theorem leavesAll_append (ts us : List (Tree α)) :
    leavesAll (ts ++ us) = leavesAll ts + leavesAll us := by
  induction ts with
  | nil => simp [leavesAll]
  | cons t ts ih => rw [List.cons_append, leavesAll_cons, leavesAll_cons, ih, Nat.add_assoc]

theorem leavesAll_perm {ts us : List (Tree α)} (same : ts.Perm us) :
    leavesAll ts = leavesAll us :=
  Sweep.gathered_perm Nat.add_left_comm leavesAll_cons same

/-- A node counts itself where it is a leaf, and the leaves below it otherwise. -/
theorem leaves_node (a : α) (ts : List (Tree α)) :
    (node a ts).leaves = (if ts.isEmpty then 1 else 0) + leavesAll ts := by
  cases ts with
  | nil => simp [leaves, leavesAll]
  | cons t ts => simp [leaves]

theorem measured_leafSweep :
    leafSweep.Measured (ι := Tree α) sizeAll (fun count stack => count + leavesAll stack) where
  weight_perm := sizeAll_perm
  worth_perm same := by rw [leavesAll_perm same]
  weight_visit := by
    rintro ⟨a, ts⟩ rest
    change sizeAll (node a ts :: rest) = sizeAll (ts ++ rest) + 1
    rw [sizeAll_cons, size_node, sizeAll_append]
    omega
  worth_visit := by
    rintro count ⟨a, ts⟩ rest
    change count + leavesAll (node a ts :: rest)
      = (if ts.isEmpty then count + 1 else count) + leavesAll (ts ++ rest)
    rw [leavesAll_cons, leaves_node, leavesAll_append]
    split <;> omega
  weight_nil := rfl
  worth_nil _ := rfl

/-- The stack is a sweep that takes the first child next. -/
theorem run_leavesOf (count : Nat) (stack : List (Tree α)) :
    leafSweep.Run (sizeAll stack) (count, stack) (leavesOf count stack, []) := by
  fun_induction leavesOf count stack with
  | case1 count => exact .none
  | case2 count a ts stack ih =>
    rw [measured_leafSweep.weight_visit]
    exact .visit (.take (.refl _) (.refl _)) ih

theorem finds_leafSweep (t : Tree α) : leafSweep.Finds [t] t.size t.leaves := by
  have finds := measured_leafSweep.finds [t]
  have visits : sizeAll [t] = t.size := by simp [sizeAll]
  have count : 0 + leavesAll [t] = t.leaves := by simp [leavesAll]
  rwa [visits, count] at finds

theorem leafCount_eq (t : Tree α) : t.leafCount = t.leaves :=
  (finds_leafSweep t).ends (run_leavesOf 0 [t]) |>.2

/-! ## Depth -/

/-- The greatest distance from the root is kept. -/
def depthSweep : Sweep (Tree α × Nat) where
  visit deepest item := max deepest item.2
  below item := atLevel (item.2 + 1) item.1.children

/-- The deepest level at or below pending trees, each at its own level. -/
def deepestBelow : List (Tree α × Nat) → Nat
  | [] => 0
  | (t, n) :: stack => max (n + heightAll t.children) (deepestBelow stack)

theorem sizeBelow_perm {pending later : List (Tree α × Nat)} (same : pending.Perm later) :
    sizeBelow pending = sizeBelow later := by
  have gathered (item : Tree α × Nat) (rest : List (Tree α × Nat)) :
      sizeBelow (item :: rest) = item.1.size + sizeBelow rest := rfl
  exact Sweep.gathered_perm Nat.add_left_comm gathered same

theorem deepestBelow_perm {pending later : List (Tree α × Nat)} (same : pending.Perm later) :
    deepestBelow pending = deepestBelow later := by
  have gathered (item : Tree α × Nat) (rest : List (Tree α × Nat)) :
      deepestBelow (item :: rest)
        = max (item.2 + heightAll item.1.children) (deepestBelow rest) := rfl
  exact Sweep.gathered_perm Nat.max_left_comm gathered same

/-- A node and the trees below it reach as far as the node does. -/
theorem deepestBelow_atLevel (n : Nat) (ts : List (Tree α)) (stack : List (Tree α × Nat)) :
    max n (deepestBelow (atLevel (n + 1) ts ++ stack))
      = max (n + heightAll ts) (deepestBelow stack) := by
  induction ts with
  | nil => simp [atLevel, heightAll]
  | cons t ts ih =>
    obtain ⟨a, us⟩ := t
    change max n (max (n + 1 + heightAll us) (deepestBelow (atLevel (n + 1) ts ++ stack))) = _
    rw [heightAll, height]
    omega

theorem measured_depthSweep :
    depthSweep.Measured (ι := Tree α × Nat) sizeBelow
      (fun deepest stack => max deepest (deepestBelow stack)) where
  weight_perm := sizeBelow_perm
  worth_perm same := by rw [deepestBelow_perm same]
  weight_visit := by
    rintro ⟨⟨a, ts⟩, n⟩ rest
    change sizeBelow ((node a ts, n) :: rest) = sizeBelow (atLevel (n + 1) ts ++ rest) + 1
    rw [sizeBelow, size_node, sizeBelow_atLevel]
    omega
  worth_visit := by
    rintro deepest ⟨⟨a, ts⟩, n⟩ rest
    change max deepest (max (n + heightAll ts) (deepestBelow rest))
      = max (max deepest n) (deepestBelow (atLevel (n + 1) ts ++ rest))
    rw [Nat.max_assoc, deepestBelow_atLevel]
  weight_nil := rfl
  worth_nil := Nat.max_zero

theorem run_deepestOf (deepest : Nat) (stack : List (Tree α × Nat)) :
    depthSweep.Run (sizeBelow stack) (deepest, stack) (deepestOf deepest stack, []) := by
  fun_induction deepestOf deepest stack with
  | case1 deepest => exact .none
  | case2 deepest a ts n stack ih =>
    rw [measured_depthSweep.weight_visit]
    exact .visit (.take (.refl _) (.refl _)) ih

theorem finds_depthSweep (t : Tree α) : depthSweep.Finds [(t, 1)] t.size t.height := by
  have finds := measured_depthSweep.finds [(t, 1)]
  have visits : sizeBelow [(t, 1)] = t.size := rfl
  have deepest : max 0 (deepestBelow [(t, 1)]) = t.height := by
    obtain ⟨a, ts⟩ := t
    rw [deepestBelow, deepestBelow, children, height]
    omega
  rwa [visits, deepest] at finds

theorem depth_eq (t : Tree α) : t.depth = t.height :=
  (finds_depthSweep t).ends (run_deepestOf 0 [(t, 1)]) |>.2

end Tree

end Trellis
