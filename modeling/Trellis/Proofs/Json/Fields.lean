import Trellis.Proofs.Json.RoundTrip

/-!
# Fields that are written and read back

What a writer puts into a field the reader of that field takes out: words, doubles that are finite,
and lists of what reads back itself.  A value built from fields `Fits` a number of levels: its
nesting and its integers are bounded by how it is built, so that of a whole document only the
doubles are left to be read back (`read?_pretty_of_fits`).
-/

namespace Trellis.Json

open Value

/-! ## Single fields -/

namespace Value

variable {α : Type}

@[simp] theorem asWord?_ofWord (w : UInt32) : asWord? (ofWord w) = some w := by
  have bound : w.toNat < 0x100000000 := w.toNat_lt
  rw [ofWord, asWord?, if_pos bound, UInt32.ofNat_toNat]

theorem asFloat?_ofFloat {x : Float} (h : x.isFinite = true) : asFloat? (ofFloat x) = some x := by
  rw [ofFloat, if_pos h]
  rfl

/-- A list is read as what its members are read as. -/
theorem asList?_map_map {β : Type} {read : Value → Option β} {write : α → Value} {f : α → β}
    {l : List α} (h : ∀ a ∈ l, read (write a) = some (f a)) :
    asList? read (.array (l.map write)) = some (l.map f) := by
  rw [asList?, asArray?, Option.bind_some]
  induction l with
  | nil => rfl
  | cons a l ih =>
    rw [List.map_cons, List.mapM_cons, h a (by simp), ih fun b hb => h b (by simp [hb])]
    rfl

theorem exists_of_mem_mapM {read : Value → Option α} {items : List Value} {l : List α}
    (h : items.mapM read = some l) : ∀ a ∈ l, ∃ w ∈ items, read w = some a := by
  induction items generalizing l with
  | nil => cases h; exact nofun
  | cons w items ih =>
    rw [List.mapM_cons] at h
    obtain ⟨a, first, h⟩ := Option.bind_eq_some_iff.1 h
    obtain ⟨rest, others, h⟩ := Option.bind_eq_some_iff.1 h
    cases h
    rw [List.forall_mem_cons]
    refine ⟨⟨w, List.mem_cons_self, first⟩, ?_⟩
    intro b hb
    obtain ⟨u, hu, read⟩ := ih others b hb
    exact ⟨u, List.mem_cons_of_mem _ hu, read⟩

/-- What is read as a list is an array, and each member is read from one of its items. -/
theorem exists_of_asList? {read : Value → Option α} {v : Value} {l : List α}
    (h : asList? read v = some l) :
    ∃ items, v = array items ∧ ∀ a ∈ l, ∃ w ∈ items, read w = some a := by
  obtain ⟨items, found, h⟩ := Option.bind_eq_some_iff.1 h
  cases v with
  | array items' =>
    cases found
    exact ⟨items, rfl, exists_of_mem_mapM h⟩
  | _ => cases found

/-- A list is read back when its members are. -/
theorem asList?_map {read : Value → Option α} {write : α → Value} {l : List α}
    (h : ∀ a ∈ l, read (write a) = some a) : asList? read (.array (l.map write)) = some l := by
  rw [asList?_map_map h, List.map_id']

theorem asList?_ofStrings (ss : List String) : asList? asString? (ofStrings ss) = some ss :=
  asList?_map fun _ _ => rfl

@[simp] theorem get?_object (members : List (String × Value)) (key : String) :
    (object members).get? key = lookup members key := rfl

theorem lookup_eq_none {members : List (String × Value)} {key : String}
    (h : key ∉ members.map Prod.fst) : lookup members key = none := by
  induction members with
  | nil => rfl
  | cons m members ih =>
    rw [List.map_cons, List.mem_cons, not_or] at h
    rw [lookup, ih h.2, Option.none_or, if_neg (Ne.symm h.1)]

theorem mem_of_lookup {members : List (String × Value)} {key : String} {v : Value}
    (h : lookup members key = some v) : (key, v) ∈ members := by
  induction members with
  | nil => cases h
  | cons m members ih =>
    rw [lookup, Option.or_eq_some_iff] at h
    rcases h with later | ⟨_, here⟩
    · exact List.mem_cons_of_mem _ (ih later)
    · obtain ⟨k, w⟩ := m
      split at here
      · next same =>
        cases same
        cases here
        exact List.mem_cons_self
      · cases here

/-- Among distinct keys, the last member under a key is the only one. -/
theorem lookup_of_mem {members : List (String × Value)} {key : String} {v : Value}
    (distinct : (members.map Prod.fst).Nodup) (h : (key, v) ∈ members) :
    lookup members key = some v := by
  induction members with
  | nil => cases h
  | cons m members ih =>
    rw [List.map_cons, List.nodup_cons] at distinct
    rcases List.mem_cons.1 h with rfl | later
    · rw [lookup, lookup_eq_none distinct.1, Option.none_or, if_pos rfl]
    · rw [lookup, ih distinct.2 later, Option.some_or]

/-- Of two runs of members, the later one is looked at first. -/
theorem lookup_append (front back : List (String × Value)) (key : String) :
    lookup (front ++ back) key = (lookup back key).or (lookup front key) := by
  induction front with
  | nil => rw [List.nil_append, lookup.eq_1, Option.or_none]
  | cons m front ih => rw [List.cons_append, lookup, lookup, ih, Option.or_assoc]

/-- A member that may be left out is found where it is written. -/
theorem lookup_ifSome (name key : String) (write : α → Value) (o : Option α) :
    lookup (ifSome name write o) key = if name = key then o.map write else none := by
  cases o with
  | none => simp [ifSome, lookup]
  | some a => simp [ifSome, lookup]

/-- A member that is written where it is set is read back, and none where it is not. -/
theorem fieldIfAny?_map {v : Value} {key : String} {write : α → Value} {read : Value → Option α}
    {o : Option α} (written : v.get? key = o.map write) (set : ∀ a, write a ≠ .null)
    (back : ∀ a, read (write a) = some a) : v.fieldIfAny? key read = some o := by
  rw [fieldIfAny?, written]
  cases o with
  | none => rfl
  | some a =>
    rw [Option.map_some]
    split
    · next missing => cases missing
    · next null => exact absurd (Option.some.inj null) (set a)
    · next w other => rw [← Option.some.inj other, back, Option.map_some]

/-- A double that is not finite is written as null, and null is read as one that is not set. -/
theorem fieldIfAny?_ofFloat {v : Value} {key : String} {o : Option Float}
    (written : v.get? key = o.map ofFloat) :
    v.fieldIfAny? key asFloat? = some (o.filter Float.isFinite) := by
  rw [fieldIfAny?, written]
  cases o with
  | none => rfl
  | some x =>
    cases finite : x.isFinite with
    | true =>
      rw [Option.filter_some_pos finite, Option.map_some, ofFloat, if_pos finite]
      rfl
    | false => rw [Option.filter_some_neg finite, Option.map_some, ofFloat, finite]; rfl

end Value

/-! ## Values that fit -/

/-- A number that the reader can hold. -/
def Number.InBounds : Number → Prop
  | natural n => n < Numeral.bound
  | negative n => 0 < n ∧ n ≤ 0x8000000000000000
  | float _ => True

def Number.double? : Number → Option Float
  | float x => some x
  | _ => none

namespace Value

/-- At most `levels` deep, with integers that the reader can hold. -/
structure Fits (levels : Nat) (v : Value) : Prop where
  depth : v.depth ≤ levels
  bounds : ∀ n ∈ v.numbers, n.InBounds

/-- The doubles in a value. -/
def doubles (v : Value) : List Float := v.numbers.filterMap Number.double?

/-- Every double in a value is read back from its text. -/
def DoublesReadBack (v : Value) : Prop := ∀ x ∈ v.doubles, (Number.float x).ReadsBack

instance (v : Value) : Decidable v.DoublesReadBack :=
  List.decidableBAll (fun x => (Number.float x).ReadsBack) v.doubles

theorem mem_memberNumbers {n : Number} {ms : List (String × Value)} :
    n ∈ memberNumbers ms ↔ ∃ m ∈ ms, n ∈ m.2.numbers := by
  induction ms with
  | nil => simp [memberNumbers]
  | cons m ms ih => simp [memberNumbers, ih]

/-- A member of an object holds no other numbers than the object. -/
theorem numbers_of_get? {v w : Value} {key : String} (h : v.get? key = some w) :
    ∀ n ∈ w.numbers, n ∈ v.numbers := by
  intro n hn
  cases v with
  | object members => exact mem_memberNumbers.2 ⟨_, mem_of_lookup h, hn⟩
  | _ => cases h

theorem depthItems_le {levels : Nat} {vs : List Value} (h : ∀ v ∈ vs, v.depth ≤ levels) :
    depthItems vs ≤ levels := by
  induction vs with
  | nil => exact Nat.zero_le _
  | cons v vs ih =>
    exact Nat.max_le.2 ⟨h v (by simp), ih fun w hw => h w (by simp [hw])⟩

theorem depthMembers_le {levels : Nat} {ms : List (String × Value)}
    (h : ∀ m ∈ ms, m.2.depth ≤ levels) : depthMembers ms ≤ levels := by
  induction ms with
  | nil => exact Nat.zero_le _
  | cons m ms ih =>
    exact Nat.max_le.2 ⟨h m (by simp), ih fun w hw => h w (by simp [hw])⟩

theorem depth_le_depthMembers {ms : List (String × Value)} {m : String × Value} (h : m ∈ ms) :
    m.2.depth ≤ depthMembers ms := by
  induction ms with
  | nil => cases h
  | cons l ms ih =>
    rw [depthMembers]
    rcases List.mem_cons.1 h with rfl | later
    · omega
    · have := ih later
      omega

section Fits

variable {levels : Nat}

theorem Fits.mono {v : Value} {more : Nat} (h : v.Fits levels) (le : levels ≤ more) :
    v.Fits more := ⟨Nat.le_trans h.depth le, h.bounds⟩

theorem fits_bool (b : Bool) : (bool b).Fits levels := ⟨Nat.zero_le _, by simp [numbers]⟩

theorem fits_string (s : String) : (string s).Fits levels := ⟨Nat.zero_le _, by simp [numbers]⟩

theorem fits_ofWord (w : UInt32) : (ofWord w).Fits levels := by
  refine ⟨Nat.zero_le _, ?_⟩
  have bound := w.toNat_lt
  simp only [ofWord, numbers, List.mem_singleton, forall_eq, Number.InBounds, Numeral.bound]
  omega

theorem fits_ofFloat (x : Float) : (ofFloat x).Fits levels := by
  unfold ofFloat
  split
  · exact ⟨Nat.zero_le _, by simp [numbers, Number.InBounds]⟩
  · exact ⟨Nat.zero_le _, by simp [numbers]⟩

theorem fits_ifSome {α : Type} {key : String} {write : α → Value} {o : Option α}
    (h : ∀ a, (write a).Fits levels) : ∀ m ∈ ifSome key write o, m.2.Fits levels := by
  cases o with
  | none => exact nofun
  | some a => exact List.forall_mem_singleton.2 (h a)

theorem fits_array {vs : List Value} (h : ∀ v ∈ vs, v.Fits levels) :
    (array vs).Fits (levels + 1) := by
  refine ⟨Nat.succ_le_succ (depthItems_le fun v hv => (h v hv).depth), fun n hn => ?_⟩
  obtain ⟨v, hv, hn⟩ := mem_itemNumbers.1 hn
  exact (h v hv).bounds n hn

/-- A list of fields of one kind. -/
theorem fits_map {α : Type} {write : α → Value} (h : ∀ a, (write a).Fits levels) (l : List α) :
    (array (l.map write)).Fits (levels + 1) := by
  refine fits_array fun v hv => ?_
  obtain ⟨a, _, rfl⟩ := List.mem_map.1 hv
  exact h a

theorem fits_object {ms : List (String × Value)} (h : ∀ m ∈ ms, m.2.Fits levels) :
    (object ms).Fits (levels + 1) := by
  refine ⟨Nat.succ_le_succ (depthMembers_le fun m hm => (h m hm).depth), fun n hn => ?_⟩
  obtain ⟨m, hm, hn⟩ := mem_memberNumbers.1 hn
  exact (h m hm).bounds n hn

end Fits

theorem readsBack_of_fits {levels : Nat} {v : Value} (fits : v.Fits levels)
    (doubles : v.DoublesReadBack) : v.ReadsBack := by
  intro n hn
  have bounds := fits.bounds n hn
  cases n with
  | natural n => exact Number.readsBack_natural bounds
  | negative n => exact Number.readsBack_negative bounds.1 bounds.2
  | float x => exact doubles x (List.mem_filterMap.2 ⟨_, hn, rfl⟩)

/-- **A document is read back** when it fits and its doubles are read back. -/
theorem read?_pretty_of_fits {v : Value} (fits : v.Fits maxDepth) (doubles : v.DoublesReadBack)
    {behind : List Char} (hb : ∀ c ∈ behind, Token.isBlank c = true) :
    read? (v.pretty ++ behind) = some v :=
  read?_pretty (readsBack_of_fits fits doubles) fits.depth hb

theorem read?_compact_of_fits {v : Value} (fits : v.Fits maxDepth) (doubles : v.DoublesReadBack) :
    read? v.compact = some v :=
  read?_compact (readsBack_of_fits fits doubles) fits.depth

end Value

end Trellis.Json
