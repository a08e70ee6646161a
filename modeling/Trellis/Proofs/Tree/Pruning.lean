import Trellis.Proofs.Tree.Ranking

/-!
# Pruning more leaves

A ranked path does not say which leaf it ends at, and two leaves may have the same path.  So the
paths are listed here as entries, each with the number of its leaf among all leaves of the tree,
pruned or not; ranked, they are the ranked paths (`map_path_rankedEntries`).  The entries of all
leaves do not depend on the flags, and a stable sort passes over the ones that are left out.  So
pruning more leaves deletes their entries and moves no other (`rankedPaths_of_prunesMore`).
-/

namespace Trellis

/-- The node with its flag cleared. -/
def SemanticNode.unflagged (n : SemanticNode) : SemanticNode := { n with pruned := false }

namespace SemanticTree

/-- The flag of a leaf by its number; the leaves are counted in pre-order. -/
def prunedAt (t : SemanticTree) (i : Nat) : Bool := t.routes[i]?.any fun r => r.leaf.pruned

/-- A path and the number of its leaf. -/
structure Entry where
  leaf : Nat
  path : RankedPath
  deriving DecidableEq

/-- The paths to all leaves, whatever their flags. -/
def allEntries (t : SemanticTree) : List Entry :=
  t.routes.zipIdx.map fun (r, i) => ⟨i, pathOf "" r⟩

/-- The paths to the leaves that are not pruned. -/
def entries (t : SemanticTree) : List Entry := t.allEntries.filter fun e => !t.prunedAt e.leaf

/-- The entries by probability, the greatest first; those at one place keep the order of their
leaves. -/
def rankedEntries (t : SemanticTree) : List Entry := descending (fun e => e.path.place) t.entries

/-- The second tree is the first with more leaves pruned.  The flags of the nodes above the leaves
are not compared. -/
structure PrunesMore (t t' : SemanticTree) : Prop where
  same : t.map SemanticNode.unflagged = t'.map SemanticNode.unflagged
  leaves : ∀ i, t.prunedAt i = true → t'.prunedAt i = true

section Entries

variable {t : SemanticTree}

theorem prunedAt_of_getElem? {i : Nat} {r : Route SemanticNode} (h : t.routes[i]? = some r) :
    t.prunedAt i = r.leaf.pruned := by
  rw [prunedAt, h]
  rfl

/-- The entries are those of the leaves that are not pruned. -/
theorem mem_entries_iff {e : Entry} :
    e ∈ t.entries
      ↔ ∃ r, t.routes[e.leaf]? = some r ∧ r.leaf.pruned = false ∧ e.path = pathOf "" r := by
  rw [entries, List.mem_filter, allEntries, List.mem_map]
  constructor
  · rintro ⟨⟨⟨r, i⟩, numbered, rfl⟩, kept⟩
    rw [List.mem_zipIdx_iff_getElem?] at numbered
    rw [prunedAt_of_getElem? numbered] at kept
    exact ⟨r, numbered, by simpa using kept, rfl⟩
  · rintro ⟨r, numbered, kept, path⟩
    refine ⟨⟨(r, e.leaf), List.mem_zipIdx_iff_getElem?.2 numbered, ?_⟩, ?_⟩
    · exact congrArg (Entry.mk e.leaf) path.symm
    · rw [prunedAt_of_getElem? numbered, kept]
      rfl

theorem nodup_leaf_entries : (t.entries.map Entry.leaf).Nodup := by
  have numbers : t.allEntries.map Entry.leaf = List.range' 0 t.routes.length := by
    rw [allEntries, List.map_map]
    exact List.zipIdx_map_snd 0 t.routes
  have all : (t.allEntries.map Entry.leaf).Nodup := numbers ▸ List.nodup_range'
  exact all.sublist (List.filter_sublist.map _)

/-- Without their numbers the entries are the paths. -/
theorem map_path_entries (t : SemanticTree) : t.entries.map Entry.path = t.paths := by
  have kept : ∀ p ∈ t.routes.zipIdx, (!t.prunedAt p.2) = !p.1.leaf.pruned := fun p hp => by
    rw [prunedAt_of_getElem? (List.mem_zipIdx_iff_getElem?.1 hp)]
  have routes : (t.routes.zipIdx.filter fun p => !p.1.leaf.pruned).map Prod.fst
      = t.routes.filter fun r => !r.leaf.pruned := by
    have numbered : t.routes = t.routes.zipIdx.map Prod.fst := (List.zipIdx_map_fst 0 _).symm
    rw [numbered, List.filter_map, ← numbered]
    rfl
  rw [entries, allEntries, List.filter_map, List.map_map, paths, ← routes, List.map_map]
  exact congrArg _ (List.filter_congr kept)

theorem map_path_rankedEntries (t : SemanticTree) :
    t.rankedEntries.map Entry.path = t.rankedPaths := by
  have keeps : ∀ e : Entry, e.path.place = e.path.place := fun _ => rfl
  rw [rankedPaths_eq, ← map_path_entries, RankedPath.rank_eq, rankedEntries, map_descending keeps]

end Entries

/-! ## Two trees -/

/-- A path does not depend on flags. -/
theorem pathOf_map_unflagged (before : String) (r : Route SemanticNode) :
    pathOf before (r.map SemanticNode.unflagged) = pathOf before r := by
  rw [pathOf, Route.labels_map, List.map_map]
  rfl

theorem allEntries_map_unflagged (t : SemanticTree) :
    allEntries (t.map SemanticNode.unflagged) = t.allEntries := by
  rw [allEntries, Tree.routes_map, List.zipIdx_map, List.map_map, allEntries]
  apply List.map_congr_left
  intro p _
  exact congrArg (Entry.mk p.2) (pathOf_map_unflagged "" p.1)

namespace PrunesMore

variable {t t' : SemanticTree} (more : PrunesMore t t')

include more

theorem allEntries_eq : t'.allEntries = t.allEntries := by
  rw [← allEntries_map_unflagged, ← more.same, allEntries_map_unflagged]

theorem entries_eq : t'.entries = t.entries.filter fun e => !t'.prunedAt e.leaf := by
  rw [entries, entries, more.allEntries_eq, List.filter_filter]
  apply List.filter_congr
  intro e _
  have still := more.leaves e.leaf
  cases h : t.prunedAt e.leaf <;> simp_all

theorem rankedEntries_eq :
    t'.rankedEntries = t.rankedEntries.filter fun e => !t'.prunedAt e.leaf := by
  rw [rankedEntries, more.entries_eq, rankedEntries, filter_descending]

end PrunesMore

/-- **Pruning more leaves deletes their paths and changes nothing else.**  The ranked paths of a tree
are its ranked entries, one for each leaf that is not pruned; and where more leaves are pruned, what
is left are the entries of the others, as they stand in the first ranking. -/
theorem rankedPaths_of_prunesMore {t t' : SemanticTree} (more : PrunesMore t t') :
    t.rankedPaths = t.rankedEntries.map Entry.path
    ∧ (∀ e, e ∈ t.rankedEntries ↔ ∃ r, t.routes[e.leaf]? = some r ∧ r.leaf.pruned = false
        ∧ e.path = pathOf "" r)
    ∧ (t.rankedEntries.map Entry.leaf).Nodup
    ∧ t'.rankedEntries = t.rankedEntries.filter (fun e => !t'.prunedAt e.leaf)
    ∧ t'.rankedPaths = (t.rankedEntries.filter fun e => !t'.prunedAt e.leaf).map Entry.path := by
  refine ⟨(map_path_rankedEntries t).symm, fun e => ?_, ?_, more.rankedEntries_eq, ?_⟩
  · rw [rankedEntries, (descending_perm _).mem_iff, mem_entries_iff]
  · rw [rankedEntries, ((descending_perm t.entries).map Entry.leaf).nodup_iff]
    exact nodup_leaf_entries
  · rw [← more.rankedEntries_eq, map_path_rankedEntries]

/-- A node of probability one half with a text of its own. -/
def evenNode (text : String) (pruned : Bool) : SemanticNode :=
  ⟨.index 0, text, [], 0, [], 0.0, ⟨0x3FE0000000000000⟩, 1.0, 1.0, pruned⟩

/-- A tree of three leaves, two of which have the same path. -/
def forked (inner first : Bool) : SemanticTree :=
  .node (evenNode "Q" false)
    [.node (evenNode "1" inner) [.node (evenNode "a" first) [], .node (evenNode "b" false) []],
      .node (evenNode "1a" false) []]

/-- The first leaf is pruned, and the last one with the same path stays. -/
theorem rankedPaths_of_prunesMore_forked :
    PrunesMore (forked false false) (forked true true)
    ∧ (forked false false).rankedPaths.map RankedPath.text = ["Q1a", "Q1b", "Q1a"]
    ∧ (forked true true).rankedPaths.map RankedPath.text = ["Q1b", "Q1a"] := by
  have more : PrunesMore (forked false false) (forked true true) := by
    refine ⟨rfl, fun i pruned => ?_⟩
    match i with
    | 0 => rfl
    | 1 => exact pruned
    | 2 => exact pruned
    | _ + 3 => cases pruned
  obtain ⟨ranked, -, -, -, left⟩ := rankedPaths_of_prunesMore more
  -- with one probability for all, the entries are in order as they stand
  have level : (forked false false).rankedEntries = (forked false false).entries :=
    List.mergeSort_of_pairwise (by decide +kernel)
  refine ⟨more, ?_, ?_⟩
  · rw [ranked, level]
    decide +kernel
  · rw [left, level]
    decide +kernel

end SemanticTree

end Trellis
