import Trellis.Proofs.Json.Fields
import Trellis.Proofs.Json.Level
import Trellis.Tree.Raw

/-!
# Reading result trees

A node that is written by position is read as the node with its fields named (`ofDoc?_array`), so
all that is known of a written node follows from its fields (`Spelled`): the node and its children
cost two levels, and no other field of the node opens a level beyond the second.  A text that is
read is counted as its syntax tree is deep, which bounds the tree by half of the count
(`height_le_of_ofJson`).
-/

namespace Trellis

open Json

/-! ## Shallow values -/

namespace Json.Value

variable {α : Type}

theorem exists_of_mapM {read : Value → Option α} {vs : List Value} {as : List α}
    (h : vs.mapM read = some as) : ∀ v ∈ vs, ∃ a, read v = some a := by
  induction vs generalizing as with
  | nil => simp
  | cons v vs ih =>
    rw [List.mapM_cons] at h
    obtain ⟨a, first, h⟩ := Option.bind_eq_some_iff.1 h
    obtain ⟨rest, others, _⟩ := Option.bind_eq_some_iff.1 h
    intro w hw
    rcases List.mem_cons.1 hw with rfl | later
    · exact ⟨a, first⟩
    · exact ih others w later

/-- A reader that takes neither an array nor an object. -/
structure Flat (read : Value → Option α) : Prop where
  array : ∀ vs, read (.array vs) = none
  object : ∀ ms, read (.object ms) = none

theorem Flat.depth {read : Value → Option α} (flat : Flat read) {v : Value} {a : α}
    (h : read v = some a) : v.depth = 0 := by
  cases v with
  | array vs => rw [flat.array] at h; cases h
  | object ms => rw [flat.object] at h; cases h
  | _ => rfl

/-- A list of flat values opens one level. -/
theorem Flat.depth_asList? {read : Value → Option α} (flat : Flat read) {v : Value} {as : List α}
    (h : asList? read v = some as) : v.depth ≤ 1 := by
  obtain ⟨vs, items, h⟩ := Option.bind_eq_some_iff.1 h
  cases v with
  | array ws =>
    cases items
    refine Nat.succ_le_succ (depthItems_le fun w hw => ?_)
    obtain ⟨a, ha⟩ := exists_of_mapM h w hw
    exact Nat.le_of_eq (flat.depth ha)
  | _ => cases items

end Json.Value

/-! ## The fields of a written node -/

namespace RawNode

/-- The fields of a written node under their keys; those of an array go by their places. -/
def fields : Doc → List (Key × Doc)
  | .object members => members
  | .array items => (keys.map some).zip items
  | _ => []

theorem lookup_zip (ks : List String) (items : List Doc) (key : String) :
    (ks.zip items).lookup key = ((ks.map some).zip items).lookup (some key) := by
  induction ks generalizing items with
  | nil => rfl
  | cons k ks ih =>
    cases items with
    | nil => rfl
    | cons d items =>
      rw [List.map_cons, List.zip_cons_cons, List.zip_cons_cons, List.lookup_cons,
        List.lookup_cons, ih, Option.some_beq_some]

/-- The children of a written node, as they are written. -/
def childDocs (d : Doc) : List Doc :=
  match member? (fields d) "children" with
  | some (.array items) => items
  | _ => []

theorem mem_of_member? {ms : List (Key × Doc)} {key : String} {x : Doc}
    (h : member? ms key = some x) : (some key, x) ∈ ms := by
  obtain ⟨before, after, split, _⟩ := List.lookup_eq_some_iff.1 h
  rw [split]
  simp

/-- A field that occurs once is the one under its key. -/
theorem member?_of_mem {ms : List (Key × Doc)} {key : String} {x : Doc}
    (once : ms.countP (fun m => m.1 == some key) ≤ 1) (h : (some key, x) ∈ ms) :
    member? ms key = some x := by
  induction ms with
  | nil => cases h
  | cons m ms ih =>
    obtain ⟨k, d⟩ := m
    rw [List.countP_cons] at once
    rw [member?, List.lookup_cons]
    rcases List.mem_cons.1 h with same | later
    · cases same
      simp
    · by_cases same : k = some key
      · have again : 0 < ms.countP fun m => m.1 == some key :=
          List.countP_pos_iff.2 ⟨_, later, beq_self_eq_true _⟩
        rw [same, beq_self_eq_true, if_pos rfl] at once
        omega
      · have other : (some key == k) = false := by simp [Ne.symm same]
        rw [other]
        exact ih (by omega) later

end RawNode

namespace RawTree

open RawNode

theorem childrenOfMembers?_eq (ms : List (Key × Doc)) :
    childrenOfMembers? ms = match member? ms "children" with
      | none => some []
      | some d => childrenOfDoc? d := by
  induction ms with
  | nil => rfl
  | cons m ms ih =>
    obtain ⟨k, d⟩ := m
    rw [childrenOfMembers?, member?, List.lookup_cons]
    by_cases here : k = some "children"
    · simp [here]
    · have other : (some "children" == k) = false := by simp [Ne.symm here]
      rw [if_neg here, other, ih]
      rfl

/-- **A node that is written by position** is read as the node with its fields named. -/
theorem ofDoc?_array {items : List Doc} (h : items.length ≤ RawNode.keys.length) :
    ofDoc? (.array items) = ofDoc? (.object (fields (.array items))) := by
  have named : item? items = member? (fields (.array items)) :=
    funext fun key => lookup_zip keys items key
  have placed : childrenOfItems? 6 items = childrenOfMembers? (fields (.array items))
      ∧ wellKeyed (fields (.array items)) = true := by
    match items, h with
    | [], _ | [_], _ | [_, _], _ | [_, _, _], _ | [_, _, _, _], _ | [_, _, _, _, _], _
    | [_, _, _, _, _, _], _ | [_, _, _, _, _, _, _], _ => exact ⟨rfl, rfl⟩
    | _ :: _ :: _ :: _ :: _ :: _ :: _ :: _ :: _, h =>
      simp only [keys, List.length_cons, List.length_nil] at h
      omega
  have asArray : ofDoc? (.array items) = (ofFields? (item? items)).bind fun node =>
      (childrenOfItems? 6 items).map fun children => .node node children := by
    rw [ofDoc?, if_pos h]
  rw [asArray, named, placed.1, ofDoc?, if_pos placed.2]

/-- What is known of the parts of a written node. -/
structure Spelled (d : Doc) (n : RawNode) (ts : List RawTree) : Prop where
  depth : d.depth = Doc.depthMembers (fields d) + 1
  /-- A field is ignored, holds the children, or opens at most one level. -/
  field : ∀ m ∈ fields d, ∃ k, m.1 = some k
    ∧ (k ∉ RawNode.keys ∨ m.2 = .array (childDocs d) ∨ m.2.depth ≤ 1)
  children : ofDocs? (childDocs d) = some ts

theorem depth_of_fieldOr? {α : Type} {field : String → Option Doc} {key : String}
    {absent : Option α} {read : Value → Option α} {a : α} {x : Doc}
    (h : fieldOr? field key absent read = some a) (hx : field key = some x)
    (shallow : ∀ v a, read v = some a → v.depth ≤ 1) : x.depth ≤ 1 := by
  rw [fieldOr?, hx] at h
  obtain ⟨v, value, h⟩ := Option.bind_eq_some_iff.1 h
  rw [← Value.depth_of_ofDoc? x value]
  exact shallow v a h

/-- The fields of a node other than its children open at most one level. -/
theorem depth_of_ofFields? {field : String → Option Doc} {n : RawNode}
    (h : ofFields? field = some n) {k : String} (known : k ∈ RawNode.keys) (own : k ≠ "children")
    {x : Doc} (hx : field k = some x) : x.depth ≤ 1 := by
  simp only [ofFields?, Option.bind_eq_bind, Option.bind_eq_some_iff] at h
  obtain ⟨_, action, _, tokens, _, logprobs, _, logprob, _, length, _, pruned, _⟩ := h
  have flat {α : Type} {read : Value → Option α} (flat : Value.Flat read) :
      ∀ v a, read v = some a → v.depth ≤ 1 := fun v a h => by rw [flat.depth h]; decide
  have list {α : Type} {read : Value → Option α} (flat : Value.Flat read) :
      ∀ v as, Value.asList? read v = some as → v.depth ≤ 1 := fun v as => flat.depth_asList?
  simp only [RawNode.keys, List.mem_cons, List.not_mem_nil, or_false] at known
  rcases known with rfl | rfl | rfl | rfl | rfl | rfl | rfl
  · exact depth_of_fieldOr? action hx (flat ⟨fun _ => rfl, fun _ => rfl⟩)
  · exact depth_of_fieldOr? tokens hx (list ⟨fun _ => rfl, fun _ => rfl⟩)
  · exact depth_of_fieldOr? logprobs hx (list ⟨fun _ => rfl, fun _ => rfl⟩)
  · exact depth_of_fieldOr? logprob hx (flat ⟨fun _ => rfl, fun _ => rfl⟩)
  · exact depth_of_fieldOr? length hx (flat ⟨fun _ => rfl, fun _ => rfl⟩)
  · exact depth_of_fieldOr? pruned hx (flat ⟨fun _ => rfl, fun _ => rfl⟩)
  · exact absurd rfl own

theorem spelled_of_object {ms : List (Key × Doc)} {n : RawNode} {ts : List RawTree}
    (h : ofDoc? (.object ms) = some (.node n ts)) : Spelled (.object ms) n ts := by
  rw [ofDoc?] at h
  split at h
  · next keyed =>
    obtain ⟨node, hnode, h⟩ := Option.bind_eq_some_iff.1 h
    obtain ⟨children, hchildren, same⟩ := Option.map_eq_some_iff.1 h
    cases same
    rw [childrenOfMembers?_eq] at hchildren
    simp only [wellKeyed, Bool.and_eq_true, List.all_eq_true, decide_eq_true_eq] at keyed
    obtain ⟨named, once⟩ := keyed
    -- the children, where there are any, are an array
    have array : ∀ x, member? ms "children" = some x → x = .array (childDocs (.object ms)) := by
      intro x hx
      rw [hx] at hchildren
      cases x with
      | array items => rw [childDocs, fields, hx]
      | _ => cases hchildren
    refine ⟨by rw [Doc.depth]; rfl, fun m hm => ?_, ?_⟩
    · obtain ⟨k, hk⟩ := Option.isSome_iff_exists.1 (named m hm)
      refine ⟨k, hk, ?_⟩
      by_cases known : k ∈ RawNode.keys
      · have here : member? ms k = some m.2 := member?_of_mem (once k known) (hk ▸ hm)
        by_cases own : k = "children"
        · exact .inr (.inl (array m.2 (own ▸ here)))
        · exact .inr (.inr (depth_of_ofFields? hnode known own here))
      · exact .inl known
    · cases hx : member? ms "children" with
      | none =>
        rw [hx] at hchildren
        cases hchildren
        rw [childDocs, fields, hx]
        rfl
      | some x =>
        rw [hx, array x hx] at hchildren
        exact hchildren
  · cases h

theorem depthMembers_zip {ks : List String} {items : List Doc} (h : items.length ≤ ks.length) :
    Doc.depthMembers ((ks.map some).zip items) = Doc.depthItems items := by
  induction ks generalizing items with
  | nil =>
    rw [List.length_nil, Nat.le_zero, List.length_eq_zero_iff] at h
    rw [h]
    rfl
  | cons k ks ih =>
    cases items with
    | nil => rfl
    | cons d items =>
      rw [List.map_cons, List.zip_cons_cons, Doc.depthMembers, Doc.depthItems,
        ih (Nat.le_of_succ_le_succ h)]

theorem spelled_of_ofDoc? {d : Doc} {n : RawNode} {ts : List RawTree}
    (h : ofDoc? d = some (.node n ts)) : Spelled d n ts := by
  cases d with
  | object ms => exact spelled_of_object h
  | array items =>
    by_cases few : items.length ≤ RawNode.keys.length
    · rw [ofDoc?_array few] at h
      obtain ⟨_, field, children⟩ := spelled_of_object h
      refine ⟨?_, field, children⟩
      rw [Doc.depth, fields, depthMembers_zip few]
    · rw [ofDoc?, if_neg few] at h
      cases h
  | _ => cases h

/-! ## The depth of a tree that is read -/

theorem depth_lt_of_mem_fields {d : Doc} {m : Key × Doc} (h : m ∈ fields d) :
    m.2.depth < d.depth := by
  cases d with
  | object ms => exact Nat.lt_succ_of_le (Doc.depth_le_depthMembers h)
  | array items => exact Nat.lt_succ_of_le (Doc.depth_le_depthItems (List.of_mem_zip h).2)
  | _ => cases h

/-- A node and its children cost two levels. -/
theorem depth_child {d c : Doc} (h : c ∈ childDocs d) : c.depth + 2 ≤ d.depth := by
  unfold childDocs at h
  split at h
  · next items field =>
    have inside := depth_lt_of_mem_fields (mem_of_member? field)
    rw [Doc.depth] at inside
    have := Doc.depth_le_depthItems h
    omega
  · cases h

theorem ofDocs?_cons_eq_some {d : Doc} {ds : List Doc} {ts : List RawTree}
    (h : ofDocs? (d :: ds) = some ts) :
    ∃ t us, ts = t :: us ∧ ofDoc? d = some t ∧ ofDocs? ds = some us := by
  obtain ⟨t, first, h⟩ := Option.bind_eq_some_iff.1 h
  obtain ⟨us, rest, same⟩ := Option.map_eq_some_iff.1 h
  exact ⟨t, us, same.symm, first, rest⟩

mutual

theorem height_le_of_ofDoc? : (t : RawTree) → {d : Doc} → ofDoc? d = some t →
    2 * t.height ≤ d.depth + 1
  | .node n ts, d, h => by
    obtain ⟨depth, _, children⟩ := spelled_of_ofDoc? h
    have inside : ∀ c ∈ childDocs d, c.depth ≤ d.depth - 2 := fun c hc => by
      have := depth_child hc
      omega
    have below := heightAll_le_of_ofDocs? ts children inside
    rw [Tree.height]
    cases written : childDocs d with
    | nil =>
      rw [written] at children
      cases children
      rw [Tree.heightAll]
      omega
    | cons c cs =>
      have := depth_child (written ▸ List.mem_cons_self : c ∈ childDocs d)
      omega

theorem heightAll_le_of_ofDocs? : (ts : List RawTree) → {ds : List Doc} → {bound : Nat} →
    ofDocs? ds = some ts → (∀ d ∈ ds, d.depth ≤ bound) → 2 * Tree.heightAll ts ≤ bound + 1
  | [], _, _, _, _ => by rw [Tree.heightAll]; omega
  | t :: ts, ds, bound, h, le => by
    cases ds with
    | nil => cases h
    | cons d ds =>
      obtain ⟨_, _, same, first, rest⟩ := ofDocs?_cons_eq_some h
      cases same
      have head := height_le_of_ofDoc? t first
      have tail := heightAll_le_of_ofDocs? ts rest fun c hc => le c (List.mem_cons_of_mem d hc)
      have := le d (List.mem_cons_self)
      rw [Tree.heightAll]
      omega

end

theorem read?_eq_some_iff {limit : Option Nat} {cs : List Char} {t : RawTree} :
    read? limit cs = some t ↔ ∃ d, Doc.read limit cs = .ok d ∧ ofDoc? d = some t := by
  unfold read?
  cases Doc.read limit cs with
  | error e => simp
  | ok d => simp

/-- A text is loaded when its brackets nest within two levels for each node and it is read. -/
theorem ofJson_eq_ok_iff {cs : List Char} {t : RawTree} :
    ofJson cs = .ok t ↔ nesting cs ≤ 2 * maxDepth ∧ read? none cs = some t := by
  unfold ofJson
  by_cases deep : 2 * maxDepth < nesting cs
  · rw [if_pos deep]
    exact ⟨nofun, fun h => absurd h.1 (Nat.not_le.2 deep)⟩
  · rw [if_neg deep]
    cases read? none cs with
    | none => exact ⟨nofun, fun h => nomatch h.2⟩
    | some u => simp [Nat.not_lt.1 deep]

/-- **What is loaded is within the depth**, however the nodes of the text are written. -/
theorem height_le_of_ofJson {cs : List Char} {t : RawTree} (h : ofJson cs = .ok t) :
    t.height ≤ maxDepth := by
  obtain ⟨shallow, read⟩ := ofJson_eq_ok_iff.1 h
  obtain ⟨d, syntaxTree, tree⟩ := read?_eq_some_iff.1 read
  have counted := Doc.nesting_of_read syntaxTree
  have high := height_le_of_ofDoc? t tree
  omega

/-- A node with its fields out of order, an ignored one, and brackets and quotes in strings, above
a node that is written by position. -/
def motley : List Char :=
  ("\x7b\"children\":[[\"b]\\\"\",[7],[0.5],0,1]],\"note\":\"[\\\\\","
    ++ "\"length\":0,\"logprob\":1,\"action\":0\x7d").toList

theorem height_le_of_ofJson_motley :
    ∃ t, ofJson motley = .ok t ∧ t.height = 2 ∧ t.height ≤ maxDepth := by
  have height : (ofJson motley).toOption.map Tree.height = some 2 := by decide +kernel
  obtain ⟨t, loaded, two⟩ := Option.map_eq_some_iff.1 height
  have loaded : ofJson motley = .ok t := by
    cases h : ofJson motley with
    | error e => rw [h] at loaded; cases loaded
    | ok u => rw [h] at loaded; cases loaded; rfl
  exact ⟨t, loaded, two, height_le_of_ofJson loaded⟩

end RawTree

end Trellis
