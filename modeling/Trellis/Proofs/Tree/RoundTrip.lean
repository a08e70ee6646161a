import Trellis.Proofs.Tree.Decoding
import Trellis.Proofs.Tree.Reading

/-!
# Writing and reading result trees

A tree is written two levels for each node on its longest path, no more and no fewer
(`depth_toValue`), since the tokens of the deepest node open a level as its children would.  So a
tree that is written is loaded again up to the depth that is allowed and refused beyond it
(`ofJson_toJson_of_plain`), whatever its uids look like.
-/

namespace Trellis

open Json

namespace RawNode

/-- A node that a text can carry: a position is a word, and its log-probabilities are numbers. -/
structure Plain (n : RawNode) : Prop where
  position : ∀ i, n.action = .index i → i < Numeral.bound
  logprob : n.logprob.isFinite = true
  logprobs : ∀ x ∈ n.logprobs, x.isFinite = true

theorem fits_members {n : RawNode} (plain : n.Plain) : ∀ m ∈ n.members, m.2.Fits 1 := by
  simp only [members, List.forall_mem_cons, List.not_mem_nil, false_implies, implies_true,
    and_true]
  refine ⟨?_, Value.fits_map Value.fits_ofWord _, Value.fits_map Value.fits_ofFloat _,
    Value.fits_ofFloat _, Value.fits_ofWord _, Value.fits_bool _⟩
  cases h : n.action with
  | index i =>
    exact ⟨Nat.zero_le _, by simpa [Value.numbers, Number.InBounds] using plain.position i h⟩
  | uid uid => exact Value.fits_string uid

end RawNode

namespace RawTree

open RawNode

/-! ## The value of a tree -/

theorem forall_preorder_node {p : RawNode → Prop} {n : RawNode} {ts : List RawTree} :
    (∀ m ∈ Tree.preorder (.node n ts), p m) ↔ p n ∧ ∀ m ∈ Tree.preorderAll ts, p m := by
  rw [Tree.preorder, List.forall_mem_cons]

theorem forall_preorderAll_cons {p : RawNode → Prop} {t : RawTree} {ts : List RawTree} :
    (∀ m ∈ Tree.preorderAll (t :: ts), p m)
      ↔ (∀ m ∈ t.preorder, p m) ∧ ∀ m ∈ Tree.preorderAll ts, p m := by
  rw [Tree.preorderAll, List.forall_mem_append]

mutual

theorem fits_toValue : (t : RawTree) → (∀ n ∈ t.preorder, n.Plain) →
    t.toValue.Fits (2 * t.height)
  | .node n ts, plain => by
    obtain ⟨top, below⟩ := forall_preorder_node.1 plain
    rw [toValue, Tree.height]
    refine Value.fits_object fun m hm => ?_
    rcases List.mem_append.1 hm with own | children
    · exact (fits_members top m own).mono (by omega)
    · rw [List.mem_singleton.1 children]
      exact Value.fits_array (fits_toValues ts below)

theorem fits_toValues : (ts : List RawTree) → (∀ n ∈ Tree.preorderAll ts, n.Plain) →
    ∀ v ∈ toValues ts, v.Fits (2 * Tree.heightAll ts)
  | [], _ => by simp [toValues]
  | t :: ts, plain => by
    obtain ⟨first, rest⟩ := forall_preorderAll_cons.1 plain
    rw [toValues, Tree.heightAll, List.forall_mem_cons]
    exact ⟨(fits_toValue t first).mono (by omega),
      fun v hv => (fits_toValues ts rest v hv).mono (by omega)⟩

end

mutual

theorem height_le_depth_toValue : (t : RawTree) → 2 * t.height ≤ t.toValue.depth
  | .node n ts => by
    have below := heightAll_le_depthItems ts
    have last : ("children", Value.array (toValues ts))
        ∈ n.members ++ [("children", .array (toValues ts))] := by simp
    have children := Value.depth_le_depthMembers last
    rw [Value.depth] at children
    rw [toValue, Value.depth, Tree.height]
    omega

theorem heightAll_le_depthItems : (ts : List RawTree) →
    2 * Tree.heightAll ts ≤ Value.depthItems (toValues ts)
  | [] => Nat.le_refl 0
  | t :: ts => by
    have first := height_le_depth_toValue t
    have rest := heightAll_le_depthItems ts
    rw [toValues, Tree.heightAll, Value.depthItems]
    omega

end

/-- A tree is written two levels for each node on its longest path. -/
theorem depth_toValue {t : RawTree} (plain : ∀ n ∈ t.preorder, n.Plain) :
    t.toValue.depth = 2 * t.height :=
  Nat.le_antisymm (fits_toValue t plain).depth (height_le_depth_toValue t)

/-! ## The tree of its value -/

theorem wellKeyed_toMembers (n : RawNode) (children : Value) :
    wellKeyed (Value.toMembers (n.members ++ [("children", children)])) = true := rfl

/-- What is written under a key is read there. -/
theorem fieldOr?_toMembers {α : Type} {ms : List (String × Value)} {key : String}
    {absent : Option α} {read : Value → Option α} {v : Value}
    (written : member? (Value.toMembers ms) key = some v.toDoc) (readsBack : v.ReadsBack) :
    fieldOr? (member? (Value.toMembers ms)) key absent read = read v := by
  have value := Value.ofDoc?_toDoc v readsBack
  simp only [fieldOr?, written, value, Option.bind_some]

/-- The fields of a node are read back. -/
theorem ofFields?_toMembers {n : RawNode} (plain : n.Plain) {children : Value}
    (readsBack : ∀ m ∈ n.members, m.2.ReadsBack) :
    ofFields? (member? (Value.toMembers (n.members ++ [("children", children)]))) = some n := by
  have tokens : Value.asList? Value.asWord? (.array (n.tokens.map .ofWord)) = some n.tokens :=
    Value.asList?_map fun _ _ => Value.asWord?_ofWord _
  have logprobs : Value.asList? Value.asFloat? (.array (n.logprobs.map .ofFloat))
      = some n.logprobs :=
    Value.asList?_map fun x hx => Value.asFloat?_ofFloat (plain.logprobs x hx)
  have logprob := Value.asFloat?_ofFloat plain.logprob
  simp only [members, List.forall_mem_cons] at readsBack
  obtain ⟨m1, m2, m3, m4, m5, m6, -⟩ := readsBack
  rw [ofFields?, fieldOr?_toMembers rfl m1, fieldOr?_toMembers rfl m2,
    fieldOr?_toMembers rfl m3, fieldOr?_toMembers rfl m4, fieldOr?_toMembers rfl m5,
    fieldOr?_toMembers rfl m6, tokens, logprobs, logprob, Value.asWord?_ofWord]
  obtain ⟨action, _, _, _, _, _⟩ := n
  cases action <;> rfl

theorem readsBack_node {n : RawNode} {ts : List RawTree} (h : (toValue (.node n ts)).ReadsBack) :
    (∀ m ∈ n.members, m.2.ReadsBack) ∧ ∀ x ∈ Value.itemNumbers (toValues ts), x.ReadsBack := by
  rw [toValue] at h
  refine ⟨fun m hm x hx => ?_, fun x hx => ?_⟩
  · exact h x (Value.mem_memberNumbers.2 ⟨m, List.mem_append_left _ hm, hx⟩)
  · exact h x (Value.mem_memberNumbers.2
      ⟨("children", .array (toValues ts)), by simp, hx⟩)

mutual

/-- **The syntax tree of what is written is read as the tree.** -/
theorem ofDoc?_toValue : (t : RawTree) → (∀ n ∈ t.preorder, n.Plain) → t.toValue.ReadsBack →
    ofDoc? t.toValue.toDoc = some t
  | .node n ts, plain, readsBack => by
    obtain ⟨top, below⟩ := forall_preorder_node.1 plain
    obtain ⟨own, children⟩ := readsBack_node readsBack
    have last : member? (Value.toMembers (n.members ++ [("children", .array (toValues ts))]))
        "children" = some (.array (Value.toDocs (toValues ts))) := rfl
    rw [toValue, Value.toDoc, ofDoc?, if_pos (wellKeyed_toMembers n _),
      ofFields?_toMembers top own, Option.bind_some, childrenOfMembers?_eq, last]
    simp only [childrenOfDoc?, ofDocs?_toValues ts below children, Option.map_some]

theorem ofDocs?_toValues : (ts : List RawTree) → (∀ n ∈ Tree.preorderAll ts, n.Plain) →
    (∀ x ∈ Value.itemNumbers (toValues ts), x.ReadsBack) →
    ofDocs? (Value.toDocs (toValues ts)) = some ts
  | [], _, _ => rfl
  | t :: ts, plain, readsBack => by
    obtain ⟨first, rest⟩ := forall_preorderAll_cons.1 plain
    rw [toValues] at readsBack
    obtain ⟨firstBack, restBack⟩ := Value.readsBack_items_cons.1 readsBack
    rw [toValues, Value.toDocs, ofDocs?, ofDoc?_toValue t first firstBack,
      ofDocs?_toValues ts rest restBack]
    rfl

end

/-- **A tree that is written and loaded again.**  Up to the depth that is allowed the same tree is
loaded; a deeper one is refused for the two levels that each node on its longest path takes. -/
theorem ofJson_toJson_of_plain (t : RawTree) (plain : ∀ n ∈ t.preorder, n.Plain)
    (doubles : t.toValue.DoublesReadBack) :
    (t.height ≤ maxDepth → ofJson t.toJson = .ok t)
    ∧ (maxDepth < t.height → ofJson t.toJson = .error (.nested (2 * t.height))) := by
  have readsBack := Value.readsBack_of_fits (fits_toValue t plain) doubles
  have syntaxTree : Doc.read none t.toJson = .ok t.toValue.toDoc := Value.read_compact readsBack
  have counted : nesting t.toJson = 2 * t.height := by
    rw [Doc.nesting_of_read syntaxTree, Value.depth_toDoc, depth_toValue plain]
  have tree := ofDoc?_toValue t plain readsBack
  refine ⟨fun within => ?_, fun deep => ?_⟩
  · exact ofJson_eq_ok_iff.2 ⟨by omega, read?_eq_some_iff.2 ⟨_, syntaxTree, tree⟩⟩
  · rw [ofJson, counted, if_pos (by omega)]

/-- A node whose uid is made of brackets, a quote and a backslash. -/
def bracketed : RawNode := ⟨.uid "[\x7b\"\\", [], [], 0.5, 0, false⟩

/-- Such nodes in a line, each with a leaf beside the rest of the line. -/
def comb : Nat → RawTree
  | 0 => .node ⟨.index 3, [7], [0.5], 0.25, 1, true⟩ []
  | n + 1 => .node bracketed [comb 0, comb n]

theorem height_comb (n : Nat) : (comb n).height = n + 1 := by
  induction n with
  | zero => simp [comb, Tree.height, Tree.heightAll]
  | succ n ih => simp [comb, Tree.height, Tree.heightAll, ih]

theorem plain_comb (n : Nat) : ∀ m ∈ (comb n).preorder, m.Plain := by
  have leaf : ∀ m ∈ (comb 0).preorder, m.Plain := by
    rw [comb, forall_preorder_node]
    refine ⟨⟨fun i h => ?_, by decide, by decide⟩, nofun⟩
    cases h
    decide
  induction n with
  | zero => exact leaf
  | succ n ih =>
    rw [comb, forall_preorder_node, forall_preorderAll_cons, forall_preorderAll_cons]
    exact ⟨⟨nofun, by decide, nofun⟩, leaf, ih, nofun⟩

theorem doubles_bracketed (t u : RawTree) : (toValue (.node bracketed [t, u])).doubles
    = 0.5 :: (t.toValue.doubles ++ u.toValue.doubles) := by
  have finite : Float.isFinite 0.5 = true := by decide
  simp [bracketed, toValue, toValues, members, Value.doubles, Value.numbers, Value.memberNumbers,
    Value.itemNumbers, Value.ofWord, Value.ofFloat, List.filterMap_cons, Number.double?, finite]

theorem doubles_comb (n : Nat) : (comb n).toValue.DoublesReadBack := by
  have leaf : (comb 0).toValue.DoublesReadBack := by decide +kernel
  have half : (Number.float 0.5).ReadsBack := by decide +kernel
  induction n with
  | zero => exact leaf
  | succ n ih =>
    rw [Value.DoublesReadBack, comb, doubles_bracketed, List.forall_mem_cons,
      List.forall_mem_append]
    exact ⟨half, leaf, ih⟩

/-- A tree of the depth that is allowed is loaded again, and one of a node more is refused. -/
theorem ofJson_toJson_of_plain_comb :
    ofJson (comb 127).toJson = .ok (comb 127)
    ∧ ofJson (comb 128).toJson = .error (.nested 258) := by
  have allowed := ofJson_toJson_of_plain (comb 127) (plain_comb 127) (doubles_comb 127)
  have refused := ofJson_toJson_of_plain (comb 128) (plain_comb 128) (doubles_comb 128)
  rw [height_comb] at allowed refused
  exact ⟨allowed.1 (by decide), refused.2 (by decide)⟩

end RawTree

end Trellis
