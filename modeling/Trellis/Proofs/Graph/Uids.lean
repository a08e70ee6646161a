import Trellis.Graph.Basic

/-!
# Uids and their index

The index of a graph finds the first place of a uid (`find?_ofUids`), so what a graph contains is
membership in the list of its uids; and as no uid has two entries, these places are all there is in
it (`Distinct.mem_iff`).  Both validations go through the uids with the ones they have
passed at hand; `Fresh` is what holds of the uids still to come when none of them is a repetition.
-/

namespace Trellis

namespace Index

theorem find?_insertNew (i : Index) (uid v : String) (position : Nat) :
    (i.insertNew uid position).find? v
      = (i.find? v).or (if v = uid then some position else none) := by
  unfold insertNew
  cases found : i.find? uid with
  | some p =>
    by_cases same : v = uid
    · simp [same, found]
    · simp [same]
  | none =>
    rw [find?, find?, List.lookup_append, List.lookup_cons, List.lookup_nil]
    by_cases same : v = uid
    · simp [same]
    · simp [same, beq_eq_false_iff_ne.2 same]

/-- Behind the entries of an index, a uid is found at its first place. -/
theorem find?_addFrom (i : Index) (position : Nat) (uids : List String) (v : String) :
    (i.addFrom position uids).find? v
      = (i.find? v).or ((uids.idxOf? v).map (position + ·)) := by
  induction uids generalizing i position with
  | nil => simp [addFrom]
  | cons uid uids ih =>
    rw [addFrom, ih, find?_insertNew, List.idxOf?_cons, Option.or_assoc]
    congr 1
    by_cases same : v = uid
    · simp [same]
    · have other : (uid == v) = false := by simpa using Ne.symm same
      simp only [if_neg same, other, Option.none_or, Bool.false_eq_true, if_false, Option.map_map]
      congr 1
      funext k
      simp only [Function.comp_apply]
      omega

theorem find?_ofUids (uids : List String) (v : String) :
    (ofUids uids).find? v = uids.idxOf? v := by
  rw [ofUids, find?_addFrom]
  simp [empty, find?]

/-- No uid has two entries. -/
def Distinct (i : Index) : Prop := (i.entries.map Prod.fst).Nodup

theorem Distinct.insertNew {i : Index} (h : i.Distinct) (uid : String) (position : Nat) :
    (i.insertNew uid position).Distinct := by
  unfold Index.insertNew
  cases found : i.find? uid with
  | some p => exact h
  | none =>
    have new : uid ∉ i.entries.map Prod.fst := by
      intro old
      obtain ⟨entry, he, rfl⟩ := List.mem_map.1 old
      simpa using List.lookup_eq_none_iff.1 found entry he
    rw [Distinct, List.map_append, List.nodup_append]
    refine ⟨h, List.nodup_cons.2 ⟨List.not_mem_nil, List.nodup_nil⟩, ?_⟩
    intro v old w last same
    rw [List.map_singleton, List.mem_singleton] at last
    rw [same, last] at old
    exact new old

theorem Distinct.addFrom {i : Index} (h : i.Distinct) (position : Nat) (uids : List String) :
    (i.addFrom position uids).Distinct := by
  induction uids generalizing i position with
  | nil => exact h
  | cons uid uids ih => exact ih (h.insertNew uid position) (position + 1)

theorem distinct_ofUids (uids : List String) : (ofUids uids).Distinct := by
  have none : empty.Distinct := List.nodup_nil
  exact none.addFrom 0 uids

/-- Where no uid has two entries, each entry is found. -/
theorem Distinct.mem_iff {i : Index} (h : i.Distinct) {uid : String} {position : Nat} :
    (uid, position) ∈ i.entries ↔ i.find? uid = some position := by
  rw [find?, List.lookup_eq_some_iff]
  constructor
  · intro entered
    obtain ⟨before, after, split⟩ := List.append_of_mem entered
    refine ⟨before, after, split, ?_⟩
    rw [Distinct, split, List.map_append, List.nodup_append] at h
    intro entry he
    have other := h.2.2 entry.1 (List.mem_map_of_mem he) uid (by simp)
    simpa using other.symm
  · rintro ⟨before, after, split, _⟩
    rw [split]
    simp

end Index

namespace Graph

theorem actions_ofActions (actions : List Action) : (ofActions actions).actions = actions := by
  have onto : ∀ g : Graph, (actions.foldl push g).actions = g.actions ++ actions := by
    induction actions with
    | nil => exact fun g => (List.append_nil _).symm
    | cons a rest ih =>
      intro g
      rw [List.foldl_cons, ih, actions_push, List.append_assoc, List.singleton_append]
  exact onto empty

/-- The uids in order. -/
def uids (g : Graph) : List String := g.actions.map Action.uid

theorem contains_iff {g : Graph} {uid : String} : g.contains uid = true ↔ uid ∈ g.uids := by
  rw [contains, g.index_eq, Index.find?_ofUids, List.isSome_idxOf?, uids]

end Graph

/-- The uids are distinct, and none of them has been seen. -/
def Fresh (seen uids : List String) : Prop := uids.Nodup ∧ ∀ u ∈ uids, u ∉ seen

@[simp] theorem fresh_nil (seen : List String) : Fresh seen [] := by simp [Fresh]

/-- The first uid has not been seen, and the others differ from it. -/
theorem fresh_cons_iff {seen uids : List String} {u : String} :
    Fresh seen (u :: uids) ↔ u ∉ seen ∧ Fresh (u :: seen) uids := by
  rw [Fresh, Fresh, List.nodup_cons, List.forall_mem_cons]
  simp only [List.mem_cons, not_or]
  constructor
  · rintro ⟨⟨other, distinct⟩, new, later⟩
    exact ⟨new, distinct, fun v hv => ⟨fun e => other (e ▸ hv), later v hv⟩⟩
  · rintro ⟨new, distinct, later⟩
    exact ⟨⟨fun hu => (later u hu).1 rfl, distinct⟩, new, fun v hv => (later v hv).2⟩

theorem fresh_iff_nodup {uids : List String} : Fresh [] uids ↔ uids.Nodup := by simp [Fresh]

end Trellis
