import Trellis.Proofs.Store.Path
import Trellis.Store.Basic

/-!
# A file that is saved is found

Whatever is put into a store, the folders of it stay; so a way that could be gone before can be gone
afterwards, and where the folders for a file have been made, the way through them ends at the folder
of the file.  A file that could be saved once is found under its path and can be saved there again.
-/

namespace Trellis.Store

/-! ## What stands at a place -/

theorem isFolder_iff {s : Store} {place : Place} :
    s.isFolder place = true ↔ s.find? place = some .folder := by
  unfold isFolder
  split
  · next h => exact ⟨fun _ => h, fun _ => rfl⟩
  · next other => exact ⟨nofun, fun h => absurd h other⟩

theorem isFolder_root (s : Store) : s.isFolder [] = true := rfl

theorem isAround_of_find?_none {s : Store} {place : Place} (h : s.find? place = none) :
    place.isAround = false := by
  cases around : place.isAround with
  | false => rfl
  | true =>
    rw [find?, around, if_pos rfl] at h
    cases h

theorem isAround_of_not_isFolder {s : Store} {place : Place} (h : s.isFolder place = false) :
    place.isAround = false := by
  cases around : place.isAround with
  | false => rfl
  | true =>
    rw [isFolder, find?, around, if_pos rfl] at h
    cases h

theorem find?_put_self {place : Place} (h : place.isAround = false) (s : Store) (entry : Entry) :
    (s.put place entry).find? place = some entry := by
  rw [find?, h, if_neg (by decide), put, List.lookup_cons, beq_self_eq_true]

theorem find?_put_of_ne {place other : Place} (h : other ≠ place) (s : Store) (entry : Entry) :
    (s.put place entry).find? other = s.find? other := by
  have rest : (s.erase place).entries.lookup other = s.entries.lookup other := by
    rw [erase]
    dsimp only
    induction s.entries with
    | nil => rfl
    | cons e es ih =>
      obtain ⟨q, old⟩ := e
      by_cases same : q = place
      · subst same
        have skipped : (other == q) = false := beq_false_of_ne h
        rw [List.filter_cons_of_neg (by simp), ih, List.lookup_cons, skipped]
      · rw [List.filter_cons_of_pos (by simpa using same), List.lookup_cons, List.lookup_cons, ih]
  have first : (other == place) = false := beq_false_of_ne h
  unfold find?
  split
  · rfl
  · rw [put, List.lookup_cons, first]
    exact rest

/-! ## Folders stay -/

/-- Every folder of the one store is a folder of the other. -/
def FoldersStay (s t : Store) : Prop := ∀ place, s.isFolder place = true → t.isFolder place = true

theorem FoldersStay.trans {s t u : Store} (h : FoldersStay s t) (k : FoldersStay t u) :
    FoldersStay s u := fun place folder => k place (h place folder)

/-- What is put at a place where no folder stands takes no folder away. -/
theorem foldersStay_put {s : Store} {place : Place} (h : s.isFolder place = false) (entry : Entry) :
    FoldersStay s (s.put place entry) := by
  intro other folder
  have ne : other ≠ place := by
    rintro rfl
    rw [folder] at h
    cases h
  rw [isFolder_iff] at folder ⊢
  rw [find?_put_of_ne ne, folder]

/-! ## Ways through folders -/

theorem walk?_append (s : Store) (place : Place) (steps more : List Step) :
    s.walk? place (steps ++ more) = (s.walk? place steps).bind fun next => s.walk? next more := by
  induction steps generalizing place with
  | nil => rfl
  | cons step steps ih =>
    rw [List.cons_append, walk?_cons, walk?_cons]
    split
    · cases place.follow? step with
      | none => rfl
      | some next => exact ih next
    · rfl

/-- A way that can be gone can still be gone where the folders stay. -/
theorem walk?_of_foldersStay {s t : Store} (stay : FoldersStay s t) {place next : Place}
    {steps : List Step} (h : s.walk? place steps = some next) : t.walk? place steps = some next := by
  induction steps generalizing place with
  | nil => exact h
  | cons step steps ih =>
    rw [walk?_cons] at h ⊢
    split at h
    · next folder =>
      obtain ⟨through, first, rest⟩ := Option.bind_eq_some_iff.1 h
      rw [if_pos (stay place folder), first]
      exact ih rest
    · cases h

/-- The way to a folder begins at one. -/
theorem isFolder_of_walk? {s : Store} {place next : Place} {steps : List Step}
    (h : s.walk? place steps = some next) (folder : s.isFolder next = true) :
    s.isFolder place = true := by
  cases steps with
  | nil =>
    cases h
    exact folder
  | cons step steps =>
    rw [walk?_cons] at h
    split at h
    · assumption
    · cases h

/-- A step into a folder is made from a folder. -/
theorem walk?_of_not_isFolder {s : Store} {place : Place} (h : s.isFolder place = false)
    (steps : List Step) (last : Step) : s.walk? place (steps ++ [last]) = none := by
  cases steps with
  | nil => rw [List.nil_append, walk?_cons, h, if_neg (by decide)]
  | cons step steps => rw [List.cons_append, walk?_cons, h, if_neg (by decide)]

/-- Steps that stay where they are do not matter in front of a last one. -/
theorem walk?_moves (s : Store) (place : Place) (steps : List Step) (last : Step) :
    s.walk? place (moves steps ++ [last]) = s.walk? place (steps ++ [last]) := by
  induction steps generalizing place with
  | nil => rfl
  | cons step steps ih =>
    by_cases still : step = .stay
    · subst still
      have same : moves (.stay :: steps) = moves steps := rfl
      rw [same, ih, List.cons_append, walk?_cons]
      split
      · rfl
      · next other => rw [walk?_of_not_isFolder (by simpa using other)]
    · have kept : moves (step :: steps) = step :: moves steps :=
        List.filter_cons_of_pos (by simpa using still)
      rw [kept, List.cons_append, List.cons_append, walk?_cons, walk?_cons]
      split
      · cases place.follow? step with
        | none => rfl
        | some next => exact ih next
      · rfl

theorem walk?_of_moves (s : Store) (place : Place) {steps others : List Step}
    (same : moves steps = moves others) (last : Step) :
    s.walk? place (steps ++ [last]) = s.walk? place (others ++ [last]) := by
  rw [← walk?_moves s place steps, same, walk?_moves]

/-! ## Folders that are made -/

/-- Where the folders on a way have been made, it can be gone and ends at a folder. -/
theorem walk?_makeFolders {s t : Store} {place folder : Place} {steps : List Step}
    (start : s.isFolder place = true) (made : s.makeFolders place steps = (t, some folder)) :
    FoldersStay s t ∧ t.isFolder folder = true ∧ t.walk? place steps = some folder := by
  induction steps generalizing s place with
  | nil =>
    cases made
    exact ⟨fun _ h => h, start, rfl⟩
  | cons step steps ih =>
    rw [makeFolders] at made
    split at made
    · cases made
    · next next first =>
      -- what is walked from here on is walked behind the first step
      have goOn : ∀ {s' : Store}, FoldersStay s s' → s'.isFolder next = true →
          s'.makeFolders next steps = (t, some folder) →
          FoldersStay s t ∧ t.isFolder folder = true ∧ t.walk? place (step :: steps) = some folder := by
        intro s' stay isFolder made
        obtain ⟨rest, last, way⟩ := ih isFolder made
        have stay := stay.trans rest
        refine ⟨stay, last, ?_⟩
        rw [walk?_cons, if_pos (stay place start), first]
        exact way
      split at made
      · next missing =>
        have around := isAround_of_find?_none missing
        have noFolder : s.isFolder next = false := by rw [isFolder, missing]
        exact goOn (foldersStay_put noFolder .folder)
          (isFolder_iff.2 (find?_put_self around s .folder)) made
      · next there => exact goOn (fun _ h => h) (isFolder_iff.2 there) made
      · cases made

/-- Where a way ends at a folder, no folders are missing. -/
theorem makeFolders_of_walk? {s : Store} {place folder : Place} {steps : List Step}
    (way : s.walk? place steps = some folder) (last : s.isFolder folder = true) :
    s.makeFolders place steps = (s, some folder) := by
  induction steps generalizing place with
  | nil =>
    cases way
    rfl
  | cons step steps ih =>
    rw [walk?_cons] at way
    split at way
    · obtain ⟨next, first, rest⟩ := Option.bind_eq_some_iff.1 way
      have there := isFolder_iff.1 (isFolder_of_walk? rest last)
      rw [makeFolders, first]
      dsimp only
      rw [there]
      exact ih rest
    · cases way

/-! ## Files that are saved -/

/-- The file under the last name of a path, in its folder. -/
structure Holds (s : Store) (p : Path) (content : ByteArray) (folder place : Place)
    (name : String) : Prop where
  last : p.steps.getLast? = some (.into name)
  way : s.walk? [] p.parent.steps = some folder
  isFolder : s.isFolder folder = true
  into : folder.follow? (.into name) = some place
  held : s.find? place = some (.file content)

theorem target?_eq_some {s : Store} {folder place : Place} {p : Path}
    (h : s.target? folder p = some place) : ∃ name, p.steps.getLast? = some (.into name)
      ∧ folder.follow? (.into name) = some place ∧ s.isFolder place = false := by
  unfold target? at h
  split at h
  · next name last =>
    obtain ⟨into, free⟩ := Option.filter_eq_some_iff.1 h
    exact ⟨name, last, into, by simpa using free⟩
  · cases h

/-- A file is saved where the folders for it are made and one of them can hold it. -/
theorem save_eq {s t : Store} {p : Path} {folder place : Place}
    (made : s.makeFolders [] p.parent.steps = (t, some folder))
    (target : t.target? folder p = some place) (content : ByteArray) :
    s.save p content = (t.put place (.file content), .ok ()) := by
  unfold save
  simp only [made, target]

/-- Nothing else is a success, whatever the file is to hold. -/
theorem exists_of_save {s : Store} {p : Path} {content : ByteArray}
    (saved : (s.save p content).2 = .ok ()) : ∃ t folder place,
      s.makeFolders [] p.parent.steps = (t, some folder) ∧ t.target? folder p = some place := by
  unfold save at saved
  split at saved
  · cases saved
  · next t folder made =>
    split at saved
    · cases saved
    · next place target => exact ⟨t, folder, place, made, target⟩

/-- What has been saved is held, with everything that was made on the way. -/
theorem holds_of_save {s : Store} {p : Path} {content : ByteArray}
    (saved : (s.save p content).2 = .ok ()) :
    ∃ folder place name, (s.save p content).1.Holds p content folder place name := by
  obtain ⟨t, folder, place, made, target⟩ := exists_of_save saved
  obtain ⟨_, isFolder, way⟩ := walk?_makeFolders (isFolder_root s) made
  obtain ⟨name, last, into, free⟩ := target?_eq_some target
  have stay := foldersStay_put free (.file content)
  rw [save_eq made target]
  exact ⟨folder, place, name, {
    last, into
    way := walk?_of_foldersStay stay way
    isFolder := stay folder isFolder
    held := find?_put_self (isAround_of_not_isFolder free) t _ }⟩

section Holds

variable {s : Store} {p : Path} {content : ByteArray} {folder place : Place} {name : String}

/-- The path leads to the file that is held. -/
theorem Holds.get? (h : s.Holds p content folder place name) :
    s.get? p = some (.file content) := by
  obtain ⟨front, steps⟩ := List.getLast?_eq_some_iff.1 h.last
  have nonempty : p.text.isEmpty = false := by
    cases empty : p.text.isEmpty with
    | false => rfl
    | true =>
      -- the empty path only stays where it is
      have still : p.steps = [.stay] := by
        rw [Path.steps, Path.names, String.isEmpty_iff.1 empty]
        rfl
      have last := h.last
      rw [still] at last
      cases last
  have lastStep : s.walk? folder [.into name] = some place := by
    rw [walk?_cons, if_pos h.isFolder, h.into]
    rfl
  have way : s.walk? [] p.steps = some place := by
    have same := walk?_of_moves s [] (Path.moves_parent steps).symm (.into name)
    rw [steps, same, walk?_append, h.way, Option.bind_some, lastStep]
  rw [Store.get?, resolve?, nonempty, if_neg (by decide), way, Option.bind_some, h.held]

/-- The file that is held can be replaced. -/
theorem Holds.save (h : s.Holds p content folder place name) (other : ByteArray) :
    (s.save p other).2 = .ok () := by
  have made : s.makeFolders [] p.parent.steps = (s, some folder) :=
    makeFolders_of_walk? h.way h.isFolder
  have free : s.isFolder place = false := by rw [Store.isFolder, h.held]
  have target : s.target? folder p = some place := by
    rw [target?, h.last]
    dsimp only
    rw [h.into, Option.filter_some, free]
    rfl
  rw [save_eq made target]

end Holds

/-- Whether a file can be saved does not depend on what it is to hold. -/
theorem save_eq_ok_of_save {s : Store} {p : Path} {content : ByteArray}
    (saved : (s.save p content).2 = .ok ()) (other : ByteArray) : (s.save p other).2 = .ok () := by
  obtain ⟨t, folder, place, made, target⟩ := exists_of_save saved
  rw [save_eq made target]

/-- **A file that was saved is found under its path.** -/
theorem get?_save {s : Store} {p : Path} {content : ByteArray}
    (saved : (s.save p content).2 = .ok ()) : (s.save p content).1.get? p = some (.file content) := by
  obtain ⟨_, _, _, holds⟩ := holds_of_save saved
  exact holds.get?

/-- **A file that was saved can be saved again.** -/
theorem save_save {s : Store} {p : Path} {content : ByteArray}
    (saved : (s.save p content).2 = .ok ()) (other : ByteArray) :
    ((s.save p content).1.save p other).2 = .ok () := by
  obtain ⟨_, _, _, holds⟩ := holds_of_save saved
  exact holds.save other

end Trellis.Store
