import Trellis.Proofs.Compile.Validation
import Trellis.Proofs.Compile.Walk

/-!
# References to a compiled graph

A record is referred to by its place or by its uid.  A graph looks a uid up in its index, a wire
graph searches its records, and a place is counted; all three agree, since a valid graph has no uid
twice and the records stand in the order of the actions with the same uids.  So whichever form a
reference has, it is resolved to the uid of the action that it means (`resolve_of_compile`).
-/

namespace Trellis

open Asking

/-- Where no key is repeated, an item is found under its key. -/
theorem find?_of_nodup {α : Type} {key : α → String} {items : List α} {i : Nat} {a : α}
    (distinct : (items.map key).Nodup) (here : items[i]? = some a) :
    items.find? (fun b => key b == key a) = some a := by
  induction items generalizing i with
  | nil => cases here
  | cons b items ih =>
    rw [List.map_cons, List.nodup_cons] at distinct
    cases i with
    | zero =>
      cases here
      exact List.find?_cons_of_pos (beq_self_eq_true _)
    | succ i =>
      rw [List.getElem?_cons_succ] at here
      have other : ¬ (key b == key a) = true := by
        intro same
        rw [beq_iff_eq] at same
        exact distinct.1 (same ▸ List.mem_map_of_mem (List.mem_of_getElem? here))
      rw [List.find?_cons, Bool.eq_false_iff.2 other]
      exact ih distinct.2 here

namespace Wire

variable {w : Wire}

/-- A place is resolved to the uid that stands there. -/
theorem resolve?_index (w : Wire) (i : Nat) : w.resolve? (.index i) = w.uids[i]? := by
  rw [resolve?, uids, List.getElem?_map]

/-- A uid is resolved to itself, where a record has it. -/
theorem resolve?_uid (w : Wire) (uid : String) :
    w.resolve? (.uid uid) = if uid ∈ w.uids then some uid else none := by
  rw [resolve?, get?]
  cases found : w.records.find? fun r => r.uid == uid with
  | none =>
    have absent : uid ∉ w.uids := by
      intro here
      obtain ⟨r, hr, same⟩ := List.mem_map.1 here
      exact List.find?_eq_none.1 found r hr (beq_iff_eq.2 same)
    rw [if_neg absent]
    rfl
  | some r =>
    have same : r.uid = uid := by simpa only [beq_iff_eq] using List.find?_some found
    have here : uid ∈ w.uids := same ▸ List.mem_map_of_mem (List.mem_of_find?_eq_some found)
    rw [if_pos here, Option.map_some, same]

end Wire

namespace Graph

/-- The action that a reference means. -/
def meant? (g : Graph) : ActionRef → Option Action
  | .index n => g.actions[n]?
  | .uid uid => g.get? uid

variable {g : Graph}

/-- Where no uid is repeated, every action is the one that its uid finds. -/
theorem get?_uid_of_nodup (distinct : g.uids.Nodup) {i : Nat} {a : Action}
    (here : g.actions[i]? = some a) : g.get? a.uid = some a := by
  rw [get?_eq_find?]
  exact find?_of_nodup distinct here

theorem contains_eq_false_iff {uid : String} : g.contains uid = false ↔ uid ∉ g.uids := by
  rw [← contains_iff, Bool.not_eq_true]

end Graph

section Compiled

variable {g : Graph} {d : Defaults} {mask : Mask} {t : Tokenizer ρ} {w : Wire}

/-- A record is found where its action is, and it is what this action is compiled to. -/
theorem rel_get?_of_compile (h : outcome (compile g d mask t) = .ok w) (uid : String) :
    Option.Rel (fun a r => outcome (Compile.record t d mask a) = .ok r)
      (g.get? uid) (w.get? uid) := by
  simp only [Compile.record_eq_ok_iff]
  exact Compile.rel_get? (compile_eq_ok_iff.1 h).2 uid

/-- Through the uid that it is resolved to, a reference finds the action that it means. -/
theorem bind_get?_of_compile (h : outcome (compile g d mask t) = .ok w) (ref : ActionRef) :
    (w.resolve? ref).bind g.get? = g.meant? ref := by
  have distinct : g.uids.Nodup := (compile_eq_ok_iff.1 h).1.1.distinct
  cases ref with
  | index i =>
    rw [Wire.resolve?_index, uids_of_compile h, Graph.uids, List.getElem?_map, Graph.meant?]
    cases here : g.actions[i]? with
    | none => rfl
    | some a => exact Graph.get?_uid_of_nodup distinct here
  | uid uid =>
    rw [Wire.resolve?_uid, uids_of_compile h, Graph.meant?]
    split
    · rfl
    · next absent =>
      have none := Graph.contains_eq_false_iff.2 absent
      rw [Graph.contains, Option.isSome_eq_false_iff, Option.isNone_iff_eq_none] at none
      rw [Graph.get?, none]
      rfl

/-- **Both forms of a reference mean the same action.**  The place of an action and its uid are
resolved to this uid; a place beyond the last action and a uid that the graph does not have are
resolved to nothing; and two places are not resolved to one uid.  Under a uid the wire graph has what
the action under this uid is compiled to.  So a reference, resolved, leads to the action that it
means in the graph, and to the record of this action. -/
theorem resolve_of_compile (h : outcome (compile g d mask t) = .ok w) :
    (∀ i a, g.actions[i]? = some a →
      w.resolve? (.index i) = some a.uid ∧ w.resolve? (.uid a.uid) = some a.uid)
    ∧ (∀ i, g.size ≤ i → w.resolve? (.index i) = none)
    ∧ (∀ uid, g.contains uid = false → w.resolve? (.uid uid) = none)
    ∧ (∀ i j, i < g.size → j < g.size →
      w.resolve? (.index i) = w.resolve? (.index j) → i = j)
    ∧ (∀ uid, Option.Rel (fun a r => outcome (Compile.record t d mask a) = .ok r)
      (g.get? uid) (w.get? uid))
    ∧ ∀ ref, (w.resolve? ref).bind g.get? = g.meant? ref
      ∧ Option.Rel (fun a r => outcome (Compile.record t d mask a) = .ok r)
        (g.meant? ref) ((w.resolve? ref).bind w.get?) := by
  have same : w.uids = g.uids := uids_of_compile h
  have distinct : g.uids.Nodup := (compile_eq_ok_iff.1 h).1.1.distinct
  have size : g.uids.length = g.size := by rw [Graph.uids, List.length_map, Graph.size]
  refine ⟨?places, ?beyond, ?absent, ?injective, rel_get?_of_compile h, ?meant⟩
  case places =>
    intro i a here
    have placed : g.uids[i]? = some a.uid := by
      rw [Graph.uids, List.getElem?_map, here, Option.map_some]
    rw [Wire.resolve?_index, Wire.resolve?_uid, same, if_pos (List.mem_of_getElem? placed)]
    exact ⟨placed, rfl⟩
  case beyond =>
    intro i past
    rw [Wire.resolve?_index, same, List.getElem?_eq_none_iff, size]
    exact past
  case absent =>
    intro uid absent
    rw [Wire.resolve?_uid, same, if_neg (Graph.contains_eq_false_iff.1 absent)]
  case injective =>
    intro i j hi hj equal
    rw [Wire.resolve?_index, Wire.resolve?_index, same] at equal
    exact (List.getElem?_inj (size ▸ hi) distinct).1 equal
  case meant =>
    intro ref
    refine ⟨bind_get?_of_compile h ref, ?_⟩
    rw [← bind_get?_of_compile h ref]
    cases w.resolve? ref with
    | none => exact .none
    | some uid => exact rel_get?_of_compile h uid

/-- In the sample, the second place and the uid that stands there both mean the action that is
filled in; there is no third place, and no action under another uid. -/
theorem resolve_of_compile_sample :
    outcome (compile sampleGraph {} (.allowAll 7) (sampleTokenizer 7)) = .ok (sampleWire 7)
      ∧ (sampleWire 7).resolve? (.index 1) = some "fill"
      ∧ (sampleWire 7).resolve? (.uid "fill") = some "fill"
      ∧ (sampleWire 7).resolve? (.index 2) = none
      ∧ (sampleWire 7).resolve? (.uid "gone") = none := by
  have compiled : outcome (compile sampleGraph {} (.allowAll 7) (sampleTokenizer 7))
      = .ok (sampleWire 7) := rfl
  obtain ⟨places, beyond, absent, -⟩ := resolve_of_compile compiled
  exact ⟨compiled, (places 1 _ rfl).1, (places 1 _ rfl).2, beyond 2 (by decide),
    absent "gone" (by decide)⟩

end Compiled

end Trellis
