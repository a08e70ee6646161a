import Trellis.Proofs.Tree.Ranking

/-!
# The ranking of a tree from the rankings of its subtrees

A node with children adds its text in front of every path below it and no path of its own.  Since
the text is no part of the place in the ranking, it may be added before or after
(`rank_map_behind`), and a stable sort does not mind that its parts are sorted already.  So the
ranked paths of the tree are those of its subtrees, one subtree after the other, sorted again
(`rankedPaths_node`).
-/

namespace Trellis

/-- The path with a text in front. -/
def RankedPath.behind (text : String) (p : RankedPath) : RankedPath :=
  ⟨text ++ p.text, p.probability⟩

theorem RankedPath.rank_map_behind (text : String) (paths : List RankedPath) :
    (rank paths).map (behind text) = rank (paths.map (behind text)) := by
  have keeps : ∀ p, place (behind text p) = place p := fun _ => rfl
  rw [rank_eq, rank_eq, map_descending keeps]

namespace SemanticTree

/-- The ranked paths of some trees, one tree after the other, behind a text. -/
def rankedBehind (text : String) (ts : List SemanticTree) : List RankedPath :=
  ts.flatMap fun t => t.rankedPaths.map (RankedPath.behind text)

theorem pathOf_eq_behind (before : String) (r : Route SemanticNode) :
    pathOf before r = (pathOf "" r).behind before := by
  rw [pathOf, pathOf, RankedPath.behind, String.empty_append]

/-- The paths behind a text are the paths of the tree with the text in front. -/
theorem pathsRec_eq_map (before : String) (t : SemanticTree) :
    pathsRec before t = t.paths.map (RankedPath.behind before) := by
  rw [pathsRec_eq, paths, List.map_map]
  exact List.map_congr_left fun r _ => pathOf_eq_behind before r

theorem pathsRecAll_eq_flatMap (before : String) (ts : List SemanticTree) :
    pathsRecAll before ts = ts.flatMap fun t => t.paths.map (RankedPath.behind before) := by
  induction ts with
  | nil => rfl
  | cons t ts ih => rw [pathsRecAll, List.flatMap_cons, pathsRec_eq_map, ih]

/-- The paths of a node with children are those of the children, with its text in front. -/
theorem paths_node (n : SemanticNode) (t : SemanticTree) (ts : List SemanticTree) :
    paths (.node n (t :: ts))
      = (t :: ts).flatMap fun c => c.paths.map (RankedPath.behind n.text) := by
  rw [← pathsRecAll_eq_flatMap, paths, ← pathsRec_eq, pathsRec, String.empty_append]

/-- **Ranking a tree merges the rankings of its subtrees.**  The ranked paths of a node with children
are the stable sort of the ranked paths of the children in a row, with its text in front: the same
paths, the greatest first, and those at one place of the total order as they stand in that row.  The
flag and the probability of the node play no part. -/
theorem rankedPaths_node (n : SemanticNode) (t : SemanticTree) (ts : List SemanticTree) :
    rankedPaths (.node n (t :: ts)) = RankedPath.rank (rankedBehind n.text (t :: ts))
    ∧ (rankedPaths (.node n (t :: ts))).Perm (rankedBehind n.text (t :: ts))
    ∧ (rankedPaths (.node n (t :: ts))).Pairwise
        (fun a b => b.probability.totalKey ≤ a.probability.totalKey)
    ∧ ∀ place : Int,
        (rankedPaths (.node n (t :: ts))).filter (fun p => p.probability.totalKey = place)
          = (rankedBehind n.text (t :: ts)).filter fun p => p.probability.totalKey = place := by
  have sorted : rankedBehind n.text (t :: ts)
      = (t :: ts).flatMap fun c => RankedPath.rank (c.paths.map (RankedPath.behind n.text)) := by
    unfold rankedBehind
    simp only [rankedPaths_eq, RankedPath.rank_map_behind]
  have merged : rankedPaths (.node n (t :: ts))
      = RankedPath.rank (rankedBehind n.text (t :: ts)) := by
    rw [rankedPaths_eq, paths_node, sorted]
    exact (descending_flatMap _ _).symm
  rw [merged]
  exact ⟨rfl, RankedPath.rank_perm _, RankedPath.pairwise_rank _, RankedPath.filter_rank _⟩

end SemanticTree

end Trellis
