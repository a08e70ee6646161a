import Trellis.Proofs.Tree.Reading

/-!
# Ignored fields of result trees

The brackets of a text are counted before it is read, so those of ignored fields count as well.  A
tree within the depth is refused exactly where an ignored field nests too deeply
(`ofJson_of_skips`), be it a single node (`not_ofJson_of_read?`).
-/

namespace Trellis.RawTree

open Json RawNode

/-- Below a written node an ignored field holds a value, with so many levels open around it. -/
inductive Skips : Doc → Nat → Doc → Prop where
  | field {d x : Doc} {k : String} (member : (some k, x) ∈ fields d) (unknown : k ∉ RawNode.keys) :
      Skips d 1 x
  | child {d c x : Doc} {level : Nat} (member : c ∈ childDocs d) (below : Skips c level x) :
      Skips d (level + 2) x

theorem Skips.depth_le {d x : Doc} {level : Nat} (h : Skips d level x) :
    level + x.depth ≤ d.depth := by
  induction h with
  | @field d x k member unknown =>
    have inside : x.depth < d.depth := depth_lt_of_mem_fields member
    omega
  | child member below ih =>
    have := depth_child member
    omega

mutual

/-- Within a bound that holds the nodes themselves, only an ignored field can exceed it. -/
theorem depth_le_of_skips : (t : RawTree) → {d : Doc} → {bound : Nat} → ofDoc? d = some t →
    2 * t.height ≤ bound → (∀ level x, Skips d level x → level + x.depth ≤ bound) →
    d.depth ≤ bound
  | .node n ts, d, bound, h, room, skips => by
    obtain ⟨depth, field, children⟩ := spelled_of_ofDoc? h
    rw [Tree.height] at room
    have below : Doc.depthItems (childDocs d) ≤ bound - 2 := by
      refine depthItems_le_of_skips ts children (by omega) fun c hc level x hx => ?_
      have := skips _ x (.child hc hx)
      omega
    have inside : Doc.depthMembers (fields d) ≤ bound - 1 := by
      refine Doc.depthMembers_le fun m hm => ?_
      obtain ⟨k, hk, unknown | array | shallow⟩ := field m hm
      · have := skips 1 m.2 (.field (hk ▸ hm) unknown)
        omega
      · rw [array, Doc.depth]
        omega
      · omega
    omega

theorem depthItems_le_of_skips : (ts : List RawTree) → {ds : List Doc} → {bound : Nat} →
    ofDocs? ds = some ts → 2 * Tree.heightAll ts ≤ bound →
    (∀ d ∈ ds, ∀ level x, Skips d level x → level + x.depth ≤ bound) →
    Doc.depthItems ds ≤ bound
  | ts, [], _, _, _, _ => Nat.zero_le _
  | [], d :: ds, _, h, _, _ => by
    obtain ⟨_, _, same, _⟩ := ofDocs?_cons_eq_some h
    cases same
  | t :: ts, d :: ds, bound, h, room, skips => by
    obtain ⟨_, _, same, first, rest⟩ := ofDocs?_cons_eq_some h
    cases same
    rw [Tree.heightAll] at room
    have head := depth_le_of_skips t first (by omega) (skips d List.mem_cons_self)
    have tail := depthItems_le_of_skips ts rest (by omega) fun c hc =>
      skips c (List.mem_cons_of_mem d hc)
    exact Nat.max_le.2 ⟨head, tail⟩

end

theorem exists_of_ofDocs? {ds : List Doc} {ts : List RawTree} (h : ofDocs? ds = some ts)
    {d : Doc} (hd : d ∈ ds) : ∃ t, ofDoc? d = some t ∧ t.height ≤ Tree.heightAll ts := by
  induction ds generalizing ts with
  | nil => cases hd
  | cons c ds ih =>
    obtain ⟨t, us, rfl, first, rest⟩ := ofDocs?_cons_eq_some h
    rw [Tree.heightAll]
    rcases List.mem_cons.1 hd with rfl | later
    · exact ⟨t, first, by omega⟩
    · obtain ⟨u, hu, le⟩ := ih rest later
      exact ⟨u, hu, by omega⟩

/-- An ignored field stands no deeper than the brackets of the nodes. -/
theorem Skips.level_lt {d x : Doc} {level : Nat} (h : Skips d level x) {t : RawTree}
    (ht : ofDoc? d = some t) : level < 2 * t.height := by
  induction h generalizing t with
  | field member unknown =>
    cases t
    rw [Tree.height]
    omega
  | child member below ih =>
    obtain ⟨n, ts⟩ := t
    obtain ⟨u, hu, le⟩ := exists_of_ofDocs? (spelled_of_ofDoc? ht).children member
    have := ih hu
    rw [Tree.height]
    omega

/-- **A tree within the depth** is loaded unless an ignored field stands in the way: where one nests
beyond two levels for each of the `maxDepth` nodes, the text is refused as too deep, and where none
does, it is loaded as it is read.  Ignored fields of at most one level are never in the way. -/
theorem ofJson_of_skips {cs : List Char} {d : Doc} {t : RawTree}
    (syntaxTree : Doc.read none cs = .ok d) (tree : ofDoc? d = some t)
    (within : t.height ≤ maxDepth) :
    ((∀ level x, Skips d level x → level + x.depth ≤ 2 * maxDepth) → ofJson cs = .ok t)
    ∧ ((∀ level x, Skips d level x → x.depth ≤ 1) → ofJson cs = .ok t)
    ∧ ∀ level x, Skips d level x → 2 * maxDepth < level + x.depth →
      ofJson cs = .error (.nested d.depth) := by
  have counted := Doc.nesting_of_read syntaxTree
  have loaded (skips : ∀ level x, Skips d level x → level + x.depth ≤ 2 * maxDepth) :
      ofJson cs = .ok t := by
    have := depth_le_of_skips t tree (by omega) skips
    exact ofJson_eq_ok_iff.2 ⟨by omega, read?_eq_some_iff.2 ⟨d, syntaxTree, tree⟩⟩
  refine ⟨loaded, fun shallow => loaded fun level x hx => ?_, fun level x hx deep => ?_⟩
  · have := hx.level_lt tree
    have := shallow level x hx
    omega
  · have := hx.depth_le
    rw [ofJson, counted, if_pos (by omega)]

/-- Empty arrays inside one another, the given number and one more. -/
def nest : Nat → Value
  | 0 => .array []
  | n + 1 => .array [nest n]

/-- A single node with an ignored field of nested arrays. -/
def burdened (n : Nat) : Value :=
  .object [("action", .number (.natural 0)), ("logprob", .number (.natural 0)),
    ("length", .number (.natural 0)), ("note", nest n)]

/-- The node without the ignored field. -/
def unburdened : RawTree := .node ⟨.index 0, [], [], 0.0, 0, false⟩ []

theorem depth_nest (n : Nat) : (nest n).depth = n + 1 := by
  induction n with
  | zero => rfl
  | succ n ih => rw [nest, Value.depth, Value.depthItems, Value.depthItems, ih]; omega

theorem numbers_nest (n : Nat) : (nest n).numbers = [] := by
  induction n with
  | zero => rfl
  | succ n ih => rw [nest, Value.numbers, Value.itemNumbers, Value.itemNumbers, ih]; rfl

theorem read_burdened (n : Nat) : Doc.read none (burdened n).compact = .ok (burdened n).toDoc := by
  refine Value.read_compact fun m hm => ?_
  have zero : m = .natural 0 := by
    simpa [burdened, Value.numbers, Value.memberNumbers, numbers_nest] using hm
  rw [zero]
  exact Number.readsBack_natural (by decide)

theorem ofDoc?_burdened (n : Nat) : ofDoc? (burdened n).toDoc = some unburdened := rfl

theorem skips_burdened_iff {n level : Nat} {x : Doc} :
    Skips (burdened n).toDoc level x ↔ level = 1 ∧ x = (nest n).toDoc := by
  have members : fields (burdened n).toDoc
      = [(some "action", .number ⟨false, ['0'], [], none⟩),
        (some "logprob", .number ⟨false, ['0'], [], none⟩),
        (some "length", .number ⟨false, ['0'], [], none⟩), (some "note", (nest n).toDoc)] := rfl
  constructor
  · intro h
    cases h with
    | field member unknown =>
      rw [members] at member
      simp only [List.mem_cons, Prod.mk.injEq, Option.some.injEq, List.not_mem_nil, or_false]
        at member
      rcases member with ⟨rfl, _⟩ | ⟨rfl, _⟩ | ⟨rfl, _⟩ | ⟨_, rfl⟩
      · exact absurd (by decide) unknown
      · exact absurd (by decide) unknown
      · exact absurd (by decide) unknown
      · exact ⟨rfl, rfl⟩
    | child member _ => cases member
  · rintro ⟨rfl, rfl⟩
    exact .field (k := "note") (by rw [members]; simp) (by decide)

theorem depth_burdened (n : Nat) : (burdened n).toDoc.depth = n + 2 := by
  rw [Value.depth_toDoc, burdened]
  simp [Value.depth, Value.depthMembers, depth_nest]

/-- The node is loaded beside an empty array, and refused beside arrays of 256 levels. -/
theorem ofJson_of_skips_burdened :
    ofJson (burdened 0).compact = .ok unburdened
    ∧ ofJson (burdened 255).compact = .error (.nested 257) := by
  have flat : ∀ level x, Skips (burdened 0).toDoc level x → x.depth ≤ 1 := by
    intro level x h
    rw [(skips_burdened_iff.1 h).2]
    decide
  have deep : 2 * maxDepth < 1 + (nest 255).toDoc.depth := by
    rw [Value.depth_toDoc, depth_nest]
    decide
  have light := ofJson_of_skips (read_burdened 0) (ofDoc?_burdened 0) (by decide)
  have heavy := ofJson_of_skips (read_burdened 255) (ofDoc?_burdened 255) (by decide)
  refine ⟨light.2.1 flat, ?_⟩
  rw [heavy.2.2 1 _ (skips_burdened_iff.2 ⟨rfl, rfl⟩) deep, depth_burdened]

/-- A tree of a single node is refused as too deep for what an ignored field holds. -/
theorem not_ofJson_of_read? : ¬ ∀ (cs : List Char) (t : RawTree), read? none cs = some t →
    t.height ≤ maxDepth → ofJson cs = .ok t := by
  intro h
  have loaded := h (burdened 255).compact unburdened
    (read?_eq_some_iff.2 ⟨_, read_burdened 255, ofDoc?_burdened 255⟩) (by decide)
  have shallow := (ofJson_eq_ok_iff.1 loaded).1
  rw [Doc.nesting_of_read (read_burdened 255), depth_burdened] at shallow
  exact absurd shallow (by decide)

end Trellis.RawTree
