import Trellis.Tree.Semantic

/-!
# Ranked paths

A path runs from the root to a leaf that is not pruned; it carries the texts on the way and the
probability of the leaf.  The paths are defined by recursion and found by a stack.  They are ranked
by probability, the greatest first, in the total order of doubles, and those that are equal there
keep the order in which they stand in the tree.
-/

namespace Trellis

structure RankedPath where
  text : String
  probability : Double
  deriving DecidableEq

namespace RankedPath

/-- A path that may stand before another. -/
def before (a b : RankedPath) : Bool :=
  decide (b.probability.totalKey ≤ a.probability.totalKey)

/-- The paths by probability, the greatest first. -/
def rank (paths : List RankedPath) : List RankedPath := paths.mergeSort before

end RankedPath

namespace SemanticTree

mutual

/-- The paths of a tree in order, by recursion, behind a text. -/
def pathsRec (before : String) : SemanticTree → List RankedPath
  | .node n [] => if n.pruned then [] else [⟨before ++ n.text, n.probability⟩]
  | .node n (t :: ts) => pathsRecAll (before ++ n.text) (t :: ts)

def pathsRecAll (before : String) : List SemanticTree → List RankedPath
  | [] => []
  | t :: ts => pathsRec before t ++ pathsRecAll before ts

end

/-- Nodes in a stack of trees, each beside the text before it. -/
def sizeBehind : List (SemanticTree × String) → Nat
  | [] => 0
  | (t, _) :: stack => t.size + sizeBehind stack

/-- Trees behind one text. -/
def behind (text : String) (ts : List SemanticTree) : List (SemanticTree × String) :=
  ts.map (·, text)

theorem sizeBehind_behind (text : String) (ts : List SemanticTree)
    (stack : List (SemanticTree × String)) :
    sizeBehind (behind text ts ++ stack) = Tree.sizeAll ts + sizeBehind stack := by
  induction ts with
  | nil => simp [behind, Tree.sizeAll]
  | cons t ts ih =>
    change t.size + sizeBehind (behind text ts ++ stack) = _
    rw [ih, Tree.sizeAll_cons]; omega

/-- The path that ends at a node, where it is a leaf that is not pruned. -/
def pathAt (n : SemanticNode) (isLeaf : Bool) (text : String) : List RankedPath :=
  if isLeaf && !n.pruned then [⟨text, n.probability⟩] else []

/-- The paths along a stack of trees, the last first. -/
def pathsOf (found : List RankedPath) : List (SemanticTree × String) → List RankedPath
  | [] => found
  | (.node n ts, before) :: stack =>
    let text := before ++ n.text
    pathsOf (pathAt n ts.isEmpty text ++ found) (behind text ts ++ stack)
  termination_by stack => sizeBehind stack
  decreasing_by rw [sizeBehind_behind, sizeBehind, Tree.size_node]; omega

/-- The paths of a tree, ranked. -/
def rankedPaths (t : SemanticTree) : List RankedPath :=
  RankedPath.rank (pathsOf [] [(t, "")]).reverse

end SemanticTree

end Trellis
