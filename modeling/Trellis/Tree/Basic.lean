/-!
# Trees

A tree has a label and a list of subtrees.  Its figures are defined by recursion on the tree and,
beside that, by a stack of what is still to visit; the stack is what runs, since a chain of nodes
may be far deeper than a call stack.
-/

namespace Trellis

inductive Tree (α : Type u) where
  | node (label : α) (children : List (Tree α))

namespace Tree

def label : Tree α → α
  | node a _ => a

def children : Tree α → List (Tree α)
  | node _ ts => ts

def isLeaf (t : Tree α) : Bool := t.children.isEmpty

mutual

/-- The number of nodes. -/
def size : Tree α → Nat
  | node _ ts => sizeAll ts + 1

def sizeAll : List (Tree α) → Nat
  | [] => 0
  | t :: ts => size t + sizeAll ts

end

mutual

/-- The number of nodes without children. -/
def leaves : Tree α → Nat
  | node _ [] => 1
  | node _ (t :: ts) => leavesAll (t :: ts)

def leavesAll : List (Tree α) → Nat
  | [] => 0
  | t :: ts => leaves t + leavesAll ts

end

mutual

/-- The number of nodes on the longest path from the root. -/
def height : Tree α → Nat
  | node _ ts => heightAll ts + 1

def heightAll : List (Tree α) → Nat
  | [] => 0
  | t :: ts => max (height t) (heightAll ts)

end

theorem size_node (a : α) (ts : List (Tree α)) : (node a ts).size = sizeAll ts + 1 := by
  simp only [size]

theorem sizeAll_cons (t : Tree α) (ts : List (Tree α)) :
    sizeAll (t :: ts) = t.size + sizeAll ts := by simp only [sizeAll]

theorem sizeAll_append (ts us : List (Tree α)) : sizeAll (ts ++ us) = sizeAll ts + sizeAll us := by
  induction ts with
  | nil => simp [sizeAll]
  | cons t ts ih => rw [List.cons_append, sizeAll_cons, sizeAll_cons, ih]; omega

/-- Leaves counted along a stack of trees. -/
def leavesOf (count : Nat) : List (Tree α) → Nat
  | [] => count
  | node _ ts :: stack => leavesOf (if ts.isEmpty then count + 1 else count) (ts ++ stack)
  termination_by stack => sizeAll stack
  decreasing_by rw [sizeAll_append, sizeAll_cons, size_node]; omega

/-- The number of nodes without children, by a stack. -/
def leafCount (t : Tree α) : Nat := leavesOf 0 [t]

/-- Nodes in a stack of trees, each beside its distance from the root. -/
def sizeBelow : List (Tree α × Nat) → Nat
  | [] => 0
  | (t, _) :: stack => t.size + sizeBelow stack

/-- Trees at one distance from the root. -/
def atLevel (n : Nat) (ts : List (Tree α)) : List (Tree α × Nat) := ts.map (·, n)

theorem sizeBelow_atLevel (n : Nat) (ts : List (Tree α)) (stack : List (Tree α × Nat)) :
    sizeBelow (atLevel n ts ++ stack) = sizeAll ts + sizeBelow stack := by
  induction ts with
  | nil => simp [atLevel, sizeAll]
  | cons t ts ih =>
    change t.size + sizeBelow (atLevel n ts ++ stack) = _
    rw [ih, sizeAll_cons]; omega

/-- The deepest node along a stack of trees. -/
def deepestOf (deepest : Nat) : List (Tree α × Nat) → Nat
  | [] => deepest
  | (node _ ts, n) :: stack => deepestOf (max deepest n) (atLevel (n + 1) ts ++ stack)
  termination_by stack => sizeBelow stack
  decreasing_by rw [sizeBelow_atLevel, sizeBelow, size_node]; omega

/-- The number of nodes on the longest path from the root, by a stack. -/
def depth (t : Tree α) : Nat := deepestOf 0 [(t, 1)]

end Tree

end Trellis
