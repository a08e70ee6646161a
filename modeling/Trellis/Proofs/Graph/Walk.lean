import Mathlib.Data.List.Nodup
import Mathlib.Data.List.Perm.Subperm
import Trellis.Proofs.Graph.Uids

/-!
# The walk along first successors

The walk from the entry takes the first successor of every action, and it is cut after as many
actions as the graph has, so that a cycle does not keep it going.  Where a way comes to an end by
itself, the cut is no loss: what follows an action depends on the action alone, so such a way never
comes back to one (`Ends.nodup`), is no longer than the graph, and is all walked (`walk_of_ends`).
-/

namespace Trellis

/-- The literals that a task emits where the first choice is taken. -/
def Task.spoken : Task → List String
  | text literal _ => [literal]
  | choose choices _ _ => choices.head?.toList
  | complete _ => []

namespace Graph

/-- The action that the first successor names. -/
def next? (g : Graph) (a : Action) : Option Action := a.successors.head?.bind g.get?

/-- The walk along first successors, for at most `steps` actions. -/
def walkFrom (g : Graph) : (steps : Nat) → Option Action → List Action
  | 0, _ => []
  | _ + 1, none => []
  | steps + 1, some a => a :: g.walkFrom steps (g.next? a)

/-- The walk from the entry, cut after as many actions as there are. -/
def walk (g : Graph) : List Action := g.walkFrom g.size g.entry?

/-- The way along first successors from an action to one without successors. -/
inductive Ends (g : Graph) : Action → List Action → Prop
  | last {a : Action} (h : a.successors = []) : Ends g a [a]
  | step {a b : Action} {rest : List Action} (h : g.next? a = some b) (later : Ends g b rest) :
      Ends g a (a :: rest)

theorem get?_eq_find? (g : Graph) (uid : String) :
    g.get? uid = g.actions.find? fun a => a.uid == uid := by
  rw [get?, g.index_eq, Index.find?_ofUids]
  generalize g.actions = actions
  induction actions with
  | nil => rfl
  | cons a rest ih =>
    rw [List.map_cons, List.idxOf?_cons, List.find?_cons]
    cases a.uid == uid with
    | true => rfl
    | false =>
      rw [← ih]
      cases (rest.map Action.uid).idxOf? uid <;> rfl

variable {g : Graph} {a b : Action} {path : List Action}

theorem mem_of_next? (h : g.next? a = some b) : b ∈ g.actions := by
  obtain ⟨uid, _, found⟩ := Option.bind_eq_some_iff.1 h
  rw [get?_eq_find?] at found
  exact List.mem_of_find?_eq_some found

theorem mem_of_start (h : g.entry? = some a) : a ∈ g.actions := List.mem_of_mem_head? h

theorem next?_of_last (h : a.successors = []) : g.next? a = none := by rw [next?, h]; rfl

theorem walkFrom_none (g : Graph) (steps : Nat) : g.walkFrom steps none = [] := by
  cases steps <;> rfl

theorem mem_walkFrom {steps : Nat} {start : Option Action} (known : ∀ a ∈ start, a ∈ g.actions) :
    ∀ b ∈ g.walkFrom steps start, b ∈ g.actions := by
  induction steps generalizing start with
  | zero =>
    intro b hb
    cases hb
  | succ steps ih =>
    cases start with
    | none =>
      intro b hb
      cases hb
    | some a =>
      rw [walkFrom, List.forall_mem_cons]
      constructor
      · exact known a rfl
      · apply ih
        intro b hb
        exact mem_of_next? hb

/-- The walk stays among the actions of the graph. -/
theorem mem_walk : ∀ b ∈ g.walk, b ∈ g.actions := by
  apply mem_walkFrom
  intro a ha
  exact mem_of_start ha

/-! ## Ways that end -/

/-- There is one way from an action. -/
theorem Ends.unique {other : List Action} (h : g.Ends a path) (h' : g.Ends a other) :
    path = other := by
  induction h generalizing other with
  | last stop =>
    cases h' with
    | last => rfl
    | step next => rw [next?_of_last stop] at next; cases next
  | step next later ih =>
    cases h' with
    | last stop => rw [next?_of_last stop] at next; cases next
    | step next' later' =>
      cases next.symm.trans next'
      rw [ih later']

/-- The way from an action on a way is the rest of it. -/
theorem Ends.of_mem (h : g.Ends a path) (hb : b ∈ path) :
    ∃ rest, g.Ends b rest ∧ rest.length ≤ path.length := by
  induction h with
  | last stop =>
    rw [List.mem_singleton] at hb
    subst hb
    exact ⟨_, .last stop, Nat.le_refl _⟩
  | step next later ih =>
    rcases List.mem_cons.1 hb with rfl | below
    · exact ⟨_, .step next later, Nat.le_refl _⟩
    · obtain ⟨rest, ends, shorter⟩ := ih below
      exact ⟨rest, ends, Nat.le_succ_of_le shorter⟩

/-- A way that ends takes no action twice: from there it would never end. -/
theorem Ends.nodup (h : g.Ends a path) : path.Nodup := by
  induction h with
  | last stop => exact List.nodup_singleton _
  | @step a b rest next later ih =>
    have new : a ∉ rest := by
      intro again
      obtain ⟨other, ends, shorter⟩ := later.of_mem again
      rw [ends.unique (.step next later), List.length_cons] at shorter
      omega
    exact List.nodup_cons.2 ⟨new, ih⟩

theorem Ends.mem_actions (h : g.Ends a path) (start : a ∈ g.actions) :
    ∀ b ∈ path, b ∈ g.actions := by
  induction h with
  | last stop => exact List.forall_mem_singleton.2 start
  | step next later ih => exact List.forall_mem_cons.2 ⟨start, ih (mem_of_next? next)⟩

/-- Within its length, all of a way that ends is walked. -/
theorem Ends.walkFrom_eq (h : g.Ends a path) {steps : Nat} (room : path.length ≤ steps) :
    g.walkFrom steps (some a) = path := by
  induction h generalizing steps with
  | last stop =>
    obtain _ | steps := steps
    · cases room
    · rw [walkFrom, next?_of_last stop, walkFrom_none]
  | step next later ih =>
    obtain _ | steps := steps
    · cases room
    · rw [walkFrom, next, ih (Nat.le_of_succ_le_succ room)]

/-- **The cut drops nothing of a walk that ends**, and every action on it is taken once. -/
theorem walk_of_ends (entry : g.entry? = some a) (h : g.Ends a path) :
    g.walk = path ∧ path.Nodup := by
  have room : path.length ≤ g.size :=
    (List.subperm_of_subset h.nodup (h.mem_actions (mem_of_start entry))).length_le
  rw [walk, entry]
  exact ⟨h.walkFrom_eq room, h.nodup⟩

end Graph

end Trellis
