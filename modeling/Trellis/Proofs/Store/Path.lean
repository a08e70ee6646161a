import Trellis.Store.Path

/-!
# The folder of a path

A path is written from its names again by putting slashes between them.  What the path to a folder
leaves out are steps that stay where they are, so it goes the way of the whole path up to the last
name (`moves_parent`).
-/

namespace Trellis.Store

/-- The steps that go anywhere. -/
def moves (steps : List Step) : List Step := steps.filter (· != .stay)

theorem moves_append (steps more : List Step) : moves (steps ++ more) = moves steps ++ moves more :=
  List.filter_append ..

namespace Path

/-! ## Names between slashes -/

theorem slash_not_mem_split (cs : List Char) : ∀ name ∈ split cs, '/' ∉ name := by
  induction cs with
  | nil => exact List.forall_mem_singleton.2 (List.not_mem_nil)
  | cons c cs ih =>
    rw [split]
    split
    · exact List.forall_mem_cons.2 ⟨List.not_mem_nil, ih⟩
    · next other =>
      split
      · exact List.forall_mem_singleton.2 fun h => other (List.mem_singleton.1 h).symm
      · next name rest e =>
        rw [e] at ih
        obtain ⟨first, rest⟩ := List.forall_mem_cons.1 ih
        refine List.forall_mem_cons.2 ⟨fun h => ?_, rest⟩
        rcases List.mem_cons.1 h with h | h
        · exact other h.symm
        · exact first h

theorem split_append {name : List Char} (h : '/' ∉ name) (rest : List Char) :
    split (name ++ '/' :: rest) = name :: split rest := by
  induction name with
  | nil => rfl
  | cons c name ih =>
    rw [List.mem_cons, not_or] at h
    rw [List.cons_append, split, if_neg (Ne.symm h.1), ih h.2]

theorem split_of_not_mem {name : List Char} (h : '/' ∉ name) : split name = [name] := by
  induction name with
  | nil => rfl
  | cons c name ih =>
    rw [List.mem_cons, not_or] at h
    rw [split, if_neg (Ne.symm h.1), ih h.2]

/-- Names with slashes between them are split into these names. -/
theorem split_intercalate {names : List (List Char)} (ne : names ≠ [])
    (h : ∀ name ∈ names, '/' ∉ name) : split (['/'].intercalate names) = names := by
  induction names with
  | nil => exact absurd rfl ne
  | cons name names ih =>
    obtain ⟨first, rest⟩ := List.forall_mem_cons.1 h
    cases names with
    | nil => rw [List.intercalate_singleton, split_of_not_mem first]
    | cons next names =>
      rw [List.intercalate_cons_cons, List.append_assoc, List.singleton_append, split_append first,
        ih (List.cons_ne_nil _ _) rest]

theorem names_intercalate {names : List String} (ne : names ≠ [])
    (h : ∀ name ∈ names, '/' ∉ name.toList) : Path.names ⟨"/".intercalate names⟩ = names := by
  have spelt : ("/".intercalate names).toList = ['/'].intercalate (names.map String.toList) :=
    String.toList_intercalate
  have back : String.ofList ∘ String.toList = id := funext fun _ => String.ofList_toList
  rw [Path.names, spelt, split_intercalate (by simpa using ne) (by simpa using h), List.map_map,
    back, List.map_id]

theorem slash_not_mem_names (p : Path) : ∀ name ∈ p.names, '/' ∉ name.toList := by
  intro name h
  obtain ⟨cs, inside, rfl⟩ := List.mem_map.1 h
  rw [String.toList_ofList]
  exact slash_not_mem_split _ cs inside

/-! ## The path to a folder -/

theorem mem_of_mem_trim {names : List String} {name : String} (h : name ∈ trim names) :
    name ∈ names := by
  cases names with
  | nil => exact h
  | cons first rest =>
    rcases List.mem_cons.1 h with h | h
    · exact List.mem_cons.2 (.inl h)
    · have kept := (List.dropWhile_sublist _).subset (List.mem_reverse.1 h)
      exact List.mem_cons_of_mem _ (List.mem_reverse.1 kept)

theorem filter_dropWhile {α : Type} {p q : α → Bool} (h : ∀ a, q a = true → p a = false)
    (as : List α) : (as.dropWhile q).filter p = as.filter p := by
  induction as with
  | nil => rfl
  | cons a as ih =>
    rw [List.dropWhile_cons]
    split
    · next skipped => rw [ih, List.filter_cons_of_neg (by rw [h a skipped]; decide)]
    · rfl

theorem moves_map_ofName (names : List String) :
    moves (names.map Step.ofName) = (names.filter (Step.ofName · != .stay)).map Step.ofName :=
  List.filter_map

/-- What is trimmed goes nowhere. -/
theorem moves_trim (names : List String) :
    moves ((trim names).map Step.ofName) = moves (names.map Step.ofName) := by
  cases names with
  | nil => rfl
  | cons first rest =>
    have stays : ∀ name : String, (Step.ofName name == .stay) = true →
        (Step.ofName name != .stay) = false := fun name h => by rw [bne, h]; rfl
    show moves ([Step.ofName first] ++ List.map Step.ofName _)
      = moves ([Step.ofName first] ++ rest.map Step.ofName)
    rw [moves_append, moves_append]
    congr 1
    rw [moves_map_ofName, moves_map_ofName, List.filter_reverse, filter_dropWhile stays,
      List.filter_reverse, List.reverse_reverse]

/-- A last name that goes somewhere is not trimmed. -/
theorem trim_append_singleton (names : List String) {last : String}
    (h : Step.ofName last ≠ .stay) : trim (names ++ [last]) = names ++ [last] := by
  cases names with
  | nil => rfl
  | cons first rest =>
    have stop : (Step.ofName last == .stay) = false := beq_false_of_ne h
    rw [List.cons_append, trim, List.reverse_append, List.reverse_singleton, List.singleton_append,
      List.dropWhile_cons, stop, if_neg (by decide), List.reverse_cons, List.reverse_reverse]

/-- **The path to the folder of a name goes the way in front of that name.** -/
theorem moves_parent {p : Path} {front : List Step} {name : String}
    (h : p.steps = front ++ [.into name]) : moves p.parent.steps = moves front := by
  obtain ⟨names, lasts, split, rfl, ends⟩ := List.map_eq_append_iff.1 h
  obtain ⟨last, rfl, into⟩ := List.map_eq_singleton_iff.1 ends
  have whole : trim p.names = names ++ [last] := by
    rw [split]
    exact trim_append_singleton names (by rw [into]; exact Step.noConfusion)
  have plain : ∀ name ∈ trim names, '/' ∉ name.toList := by
    intro name h
    apply slash_not_mem_names p
    rw [split]
    exact List.mem_append_left _ (mem_of_mem_trim h)
  rw [parent, whole, List.dropLast_concat, ← moves_trim names]
  by_cases none : trim names = []
  · rw [none]
    rfl
  · by_cases empty : "/".intercalate (trim names) = ""
    · -- only the empty name is written without any character
      have single := names_intercalate none plain
      rw [empty] at single
      rw [empty, ← single]
      rfl
    · have written : ("/".intercalate (trim names)).isEmpty = false := by
        simpa using empty
      rw [written, if_neg (by decide), steps, names_intercalate none plain]

end Path

end Trellis.Store
