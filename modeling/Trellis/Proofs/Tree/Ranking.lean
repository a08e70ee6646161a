import Trellis.Proofs.Descending
import Trellis.Proofs.Double.Order
import Trellis.Proofs.Tree.Routes
import Trellis.Ranking

/-!
# Ranked paths

The walk with a stack finds the paths of the routes whose leaf is not pruned, in the order of their
leaves (`pathsOf_eq`, `pathsRec_eq`), and the ranking is the stable sort of them: the same paths,
each of which stands behind none at a lower place of the total order, and those at one place in the
order of their leaves (`rankedPaths_of_routes`).
-/

namespace Trellis

/-! ## The paths along a stack -/

namespace SemanticTree

/-- The path of a route behind a text: the texts on the way, and the probability of the leaf. -/
def pathOf (before : String) (r : Route SemanticNode) : RankedPath :=
  ⟨before ++ String.join (r.labels.map SemanticNode.text), r.leaf.probability⟩

/-- The paths of the routes whose leaf is not pruned, in pre-order. -/
def paths (t : SemanticTree) : List RankedPath :=
  (t.routes.filter fun r => !r.leaf.pruned).map (pathOf "")

theorem pathOf_under (before : String) (n : SemanticNode) (r : Route SemanticNode) :
    pathOf before (r.under n) = pathOf (before ++ n.text) r := by
  rw [pathOf, pathOf, Route.labels_under, List.map_cons, String.join_cons, String.append_assoc]
  rfl

mutual

/-- The recursion lists the paths of the routes. -/
theorem pathsRec_eq (before : String) : (t : SemanticTree) →
    pathsRec before t = (t.routes.filter fun r => !r.leaf.pruned).map (pathOf before)
  | .node n [] => by
    have alone : pathOf before ⟨[], n⟩ = ⟨before ++ n.text, n.probability⟩ := by
      simp [pathOf, Route.labels]
    rw [pathsRec, Tree.routes, List.filter_cons]
    cases n.pruned
    · exact congrArg (fun p => [p]) alone.symm
    · rfl
  | .node n (t :: ts) => by
    have below : pathOf before ∘ Route.under n = pathOf (before ++ n.text) :=
      funext (pathOf_under before n)
    rw [pathsRec, Tree.routes, pathsRecAll_eq, List.filter_map, List.map_map, below]
    rfl

theorem pathsRecAll_eq (before : String) : (ts : List SemanticTree) →
    pathsRecAll before ts
      = ((Tree.routesAll ts).filter fun r => !r.leaf.pruned).map (pathOf before)
  | [] => rfl
  | t :: ts => by
    rw [pathsRecAll, Tree.routesAll, List.filter_append, List.map_append, pathsRec_eq before t,
      pathsRecAll_eq before ts]

end

/-- The path at a node itself stands in front of those below it. -/
theorem pathsRec_node (before : String) (n : SemanticNode) (ts : List SemanticTree) :
    pathsRec before (.node n ts)
      = pathAt n ts.isEmpty (before ++ n.text) ++ pathsRecAll (before ++ n.text) ts := by
  cases ts with
  | nil => cases h : n.pruned <;> simp [pathsRec, pathsRecAll, pathAt, h]
  | cons t ts => simp [pathsRec, pathAt]

/-- At most one path ends at a node, so it has no order of its own. -/
theorem reverse_pathAt_append (n : SemanticNode) (isLeaf : Bool) (text : String)
    (rest : List RankedPath) :
    (pathAt n isLeaf text ++ rest).reverse = rest.reverse ++ pathAt n isLeaf text := by
  unfold pathAt
  split <;> simp

/-- The paths of every tree on a stack, each behind its own text. -/
def pathsOn (stack : List (SemanticTree × String)) : List RankedPath :=
  stack.flatMap fun s => pathsRec s.2 s.1

theorem pathsOn_behind (text : String) (ts : List SemanticTree)
    (stack : List (SemanticTree × String)) :
    pathsOn (behind text ts ++ stack) = pathsRecAll text ts ++ pathsOn stack := by
  induction ts with
  | nil => rfl
  | cons t ts ih =>
    change pathsRec text t ++ pathsOn (behind text ts ++ stack) = _
    rw [ih, pathsRecAll, List.append_assoc]

/-- The walk finds the paths of the trees on its stack in their order, the last one first. -/
theorem pathsOf_eq (found : List RankedPath) (stack : List (SemanticTree × String)) :
    pathsOf found stack = (pathsOn stack).reverse ++ found := by
  fun_induction pathsOf found stack with
  | case1 found => rfl
  | case2 found n ts before stack text ih =>
    have top : pathsOn ((.node n ts, before) :: stack)
        = pathAt n ts.isEmpty text ++ (pathsRecAll text ts ++ pathsOn stack) := by
      change pathsRec before (.node n ts) ++ pathsOn stack = _
      rw [pathsRec_node, List.append_assoc]
    rw [ih, pathsOn_behind, top, reverse_pathAt_append, List.append_assoc]

end SemanticTree

/-! ## The ranking -/

namespace RankedPath

/-- The place of a path in the ranking. -/
def place (p : RankedPath) : Int := p.probability.totalKey

theorem rank_eq (paths : List RankedPath) : rank paths = descending place paths := rfl

theorem rank_perm (paths : List RankedPath) : (rank paths).Perm paths := descending_perm paths

theorem pairwise_rank (paths : List RankedPath) :
    (rank paths).Pairwise fun a b => b.probability.totalKey ≤ a.probability.totalKey :=
  pairwise_descending paths

/-- The ranking is stable: the paths at one place of the total order keep their order. -/
theorem filter_rank (paths : List RankedPath) (place : Int) :
    (rank paths).filter (fun p => p.probability.totalKey = place)
      = paths.filter fun p => p.probability.totalKey = place :=
  atPlace_descending paths place

end RankedPath

namespace SemanticTree

theorem rankedPaths_eq (t : SemanticTree) : t.rankedPaths = RankedPath.rank t.paths := by
  have found : pathsOf [] [(t, "")] = t.paths.reverse := by
    rw [pathsOf_eq, List.append_nil, paths, ← pathsRec_eq]
    simp [pathsOn]
  rw [rankedPaths, found, List.reverse_reverse]

/-- **The ranked paths of a tree.**  They are the stable sort of the paths to its leaves that are
not pruned: none is lost or repeated, each stands behind none at a lower place of the total order,
so behind none of a lesser probability, and those at one place keep the order of their leaves. -/
theorem rankedPaths_of_routes (t : SemanticTree) :
    t.rankedPaths = RankedPath.rank t.paths
    ∧ t.rankedPaths.Perm t.paths
    ∧ t.rankedPaths.Pairwise (fun a b => b.probability.totalKey ≤ a.probability.totalKey)
    ∧ t.rankedPaths.Pairwise (fun a b => ¬ a.probability < b.probability)
    ∧ ∀ place : Int, t.rankedPaths.filter (fun p => p.probability.totalKey = place)
        = t.paths.filter fun p => p.probability.totalKey = place := by
  have sorted := RankedPath.pairwise_rank t.paths
  have numeric : (RankedPath.rank t.paths).Pairwise fun a b => ¬ a.probability < b.probability :=
    sorted.imp fun le lt => Int.not_le.2 (Double.totalKey_lt_of_lt lt) le
  rw [rankedPaths_eq]
  exact ⟨rfl, RankedPath.rank_perm _, sorted, numeric, RankedPath.filter_rank _⟩

end SemanticTree

end Trellis
