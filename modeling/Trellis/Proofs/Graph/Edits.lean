import Trellis.Graph.Document
import Trellis.Graph.Equality
import Trellis.Proofs.Compile.Normalizing
import Trellis.Proofs.Graph.Walk

/-!
# Graphs that are edited

A graph comes about by pushing actions, by writing continuations out and by loading documents, in
any order.  Beside the actions it keeps the index, which a push extends, which writing out leaves
alone, and which a load builds anew.  Whatever the edits, the index has one entry for each uid, the
first place where it stands (`index_of_edits`): nothing is looked up beyond the last action, and
graphs with equal actions are equal.
-/

namespace Trellis.Graph

/-- One change of a graph. -/
inductive Edit where
  /-- One more action at the end. -/
  | push (a : Action)
  /-- Every single continuation of a choice written out. -/
  | normalize
  /-- The graph of a document instead, where the document has one. -/
  | load (text : List Char)

/-- The graph after a change. -/
def edit (g : Graph) : Edit → Graph
  | .push a => g.push a
  | .normalize => g.normalize
  | .load text =>
    match ofJson text with
    | .ok loaded => loaded
    | .error _ => g

/-- The graph after several changes, in order. -/
def editAll (g : Graph) (edits : List Edit) : Graph := edits.foldl edit g

/-- What a graph holds, without the proof that the index is the one of the actions. -/
structure Held where
  actions : List Action
  index : Index

def held (g : Graph) : Held := ⟨g.actions, g.index⟩

/-- What is held after a change: the actions and the index, each changed by itself. -/
def Held.edit (h : Held) : Edit → Held
  | .push a => ⟨h.actions ++ [a], h.index.insertNew a.uid h.actions.length⟩
  | .normalize => ⟨h.actions.map Action.normalize, h.index⟩
  | .load text =>
    match ofJson text with
    | .ok loaded => loaded.held
    | .error _ => h

theorem held_edit (g : Graph) (e : Edit) : (g.edit e).held = g.held.edit e := by
  cases e with
  | push a => rfl
  | normalize => rfl
  | load text =>
    rw [edit, Held.edit]
    cases ofJson text <;> rfl

theorem held_editAll (g : Graph) (edits : List Edit) :
    (g.editAll edits).held = edits.foldl Held.edit g.held := by
  induction edits generalizing g with
  | nil => rfl
  | cons e edits ih => rw [editAll, List.foldl_cons, List.foldl_cons, ← held_edit, ← ih, editAll]

/-! ## What the index says -/

/-- The first action with a uid stands at a place. -/
def FirstAt (actions : List Action) (uid : String) (position : Nat) : Prop :=
  ∃ a, actions[position]? = some a ∧ a.uid = uid
    ∧ ∀ q b, q < position → actions[q]? = some b → b.uid ≠ uid

section Index

variable {g : Graph} {uid : String} {position : Nat}

theorem find?_index_iff : g.index.find? uid = some position ↔ FirstAt g.actions uid position := by
  rw [g.index_eq, Index.find?_ofUids, List.idxOf?_eq_some_iff]
  simp only [List.length_map, List.getElem_map]
  constructor
  · rintro ⟨bound, here, before⟩
    refine ⟨g.actions[position], List.getElem?_eq_getElem bound, here, ?_⟩
    intro q b earlier found
    obtain ⟨_, rfl⟩ := List.getElem?_eq_some_iff.1 found
    exact before q earlier
  · rintro ⟨a, found, here, before⟩
    obtain ⟨bound, rfl⟩ := List.getElem?_eq_some_iff.1 found
    refine ⟨bound, here, ?_⟩
    intro q earlier
    exact before q _ earlier (List.getElem?_eq_getElem (Nat.lt_trans earlier bound))

theorem distinct_index (g : Graph) : g.index.Distinct := by
  rw [g.index_eq]
  exact Index.distinct_ofUids _

theorem mem_entries_iff : (uid, position) ∈ g.index.entries ↔ FirstAt g.actions uid position := by
  rw [g.distinct_index.mem_iff, find?_index_iff]

/-- The uids with an entry are those of the actions. -/
theorem mem_keys_iff : uid ∈ g.index.entries.map Prod.fst ↔ uid ∈ g.uids := by
  rw [← contains_iff, contains, Option.isSome_iff_exists, List.mem_map]
  simp only [← g.distinct_index.mem_iff]
  constructor
  · rintro ⟨⟨_, position⟩, entered, rfl⟩
    exact ⟨position, entered⟩
  · rintro ⟨position, entered⟩
    exact ⟨(uid, position), entered, rfl⟩

/-- A position that is found is one of an action. -/
theorem get?_of_find? (found : g.index.find? uid = some position) :
    position < g.actions.length ∧ g.get? uid = g.actions[position]? := by
  obtain ⟨a, here, _⟩ := find?_index_iff.1 found
  refine ⟨(List.getElem?_eq_some_iff.1 here).1, ?_⟩
  rw [get?, found, Option.bind_some]

theorem contains_eq_isSome_get? (g : Graph) (uid : String) :
    g.contains uid = (g.get? uid).isSome := by
  rw [contains]
  cases found : g.index.find? uid with
  | none => rw [get?, found]; rfl
  | some position =>
    obtain ⟨bound, here⟩ := get?_of_find? found
    rw [here, List.getElem?_eq_getElem bound]
    rfl

end Index

/-! ## Equality -/

/-- Actions that are equal one by one have the same uids. -/
theorem uids_of_isEqv {as bs : List Action} (h : as.isEqv bs Action.same = true) :
    as.map Action.uid = bs.map Action.uid := by
  induction as generalizing bs with
  | nil =>
    cases bs with
    | nil => rfl
    | cons b bs => cases h
  | cons a as ih =>
    cases bs with
    | nil => cases h
    | cons b bs =>
      simp only [List.isEqv, Bool.and_eq_true, Action.same, beq_iff_eq] at h
      obtain ⟨⟨⟨uid, _⟩, _⟩, rest⟩ := h
      rw [List.map_cons, List.map_cons, uid, ih rest]

theorem same_index (g : Graph) : g.index.same g.index = true := by
  simp only [Index.same, beq_self_eq_true, Bool.true_and, List.all_eq_true, beq_iff_eq]
  rintro ⟨uid, position⟩ entered
  exact g.distinct_index.mem_iff.1 entered

/-- The indexes are equal where the actions are. -/
theorem same_eq_sameActions (g h : Graph) : g.same h = g.sameActions h := by
  rw [same]
  cases equal : g.sameActions h with
  | false => rfl
  | true =>
    have index : g.index = h.index := by rw [g.index_eq, h.index_eq, uids_of_isEqv equal]
    rw [← index, same_index, Bool.and_true]

/-- **What a graph holds after any edits.**  The actions and the index are those that the edits
leave, each changed by itself; and still the index has one entry for each uid of the actions, the
place of the first action that has it.  So a look-up finds that action and never a place without
one, and a graph contains a uid when there is something to find.  Generation starts from the first
action.  Two graphs are equal when their actions are, whether each option is compared as it is or as
a number. -/
theorem index_of_edits (edits : List Edit) :
    let g := empty.editAll edits
    let h := edits.foldl Held.edit ⟨[], .empty⟩
    g.held = h
    ∧ ((h.index.entries.map Prod.fst).Nodup
      ∧ (∀ uid, uid ∈ h.index.entries.map Prod.fst ↔ uid ∈ h.actions.map Action.uid)
      ∧ ∀ uid position, (uid, position) ∈ h.index.entries ↔ FirstAt h.actions uid position)
    ∧ (∀ uid, g.get? uid = h.actions.find? (fun a => a.uid == uid)
      ∧ g.contains uid = (g.get? uid).isSome
      ∧ ∀ position ∈ h.index.find? uid,
        position < h.actions.length ∧ g.get? uid = h.actions[position]?)
    ∧ g.entry? = h.actions[0]?
    ∧ ∀ others, let g' := empty.editAll others
      (g = g' ↔ g.actions = g'.actions) ∧ g.same g' = g.sameActions g' := by
  intro g h
  have holds : g.held = h := held_editAll empty edits
  rw [← holds]
  refine ⟨rfl, ⟨g.distinct_index, fun _ => mem_keys_iff, fun _ _ => mem_entries_iff⟩, ?_, ?_, ?_⟩
  · intro uid
    exact ⟨g.get?_eq_find? uid, g.contains_eq_isSome_get? uid, fun _ found => get?_of_find? found⟩
  · exact List.head?_eq_getElem?
  · intro others g'
    exact ⟨⟨congrArg Graph.actions, ext_actions⟩, g.same_eq_sameActions g'⟩

/-- A graph is loaded in place of another, its first uid is pushed again, a text without a graph is
not loaded, and the continuation of the choice is written out. -/
def repeatedEdits : List Edit :=
  [.push { uid := "gone", successors := [], task := .text "" none },
    .load (ofActions
      [{ uid := "pick", successors := ["say"], task := .choose ["yes", "no"] none none },
        { uid := "say", successors := [], task := .text "so" none }]).toJson,
    .push { uid := "pick", successors := [], task := .text "again" none },
    .load ['[', ']'],
    .normalize]

/-- The uid that is repeated is found where it stood first, and the uid from before the load is not
found. -/
theorem index_of_edits_repeated :
    (empty.editAll repeatedEdits).actions
      = [{ uid := "pick", successors := ["say", "say"], task := .choose ["yes", "no"] none none },
        { uid := "say", successors := [], task := .text "so" none },
        { uid := "pick", successors := [], task := .text "again" none }]
    ∧ (empty.editAll repeatedEdits).index.find? "pick" = some 0
    ∧ (empty.editAll repeatedEdits).get? "pick"
      = some
        { uid := "pick", successors := ["say", "say"], task := .choose ["yes", "no"] none none }
    ∧ (empty.editAll repeatedEdits).contains "gone" = false := by
  obtain ⟨holds, _, lookup, _⟩ := index_of_edits repeatedEdits
  have found : (repeatedEdits.foldl Held.edit ⟨[], .empty⟩).index.find? "pick" = some 0 := by
    decide +kernel
  obtain ⟨_, _, here⟩ := lookup "pick"
  obtain ⟨missing, contained, _⟩ := lookup "gone"
  have actions := congrArg Held.actions holds
  have index := congrArg Held.index holds
  simp only [held] at actions index
  rw [actions, index, contained, missing, (here 0 found).2]
  exact ⟨by decide +kernel, found, by decide +kernel, by decide +kernel⟩

end Trellis.Graph
