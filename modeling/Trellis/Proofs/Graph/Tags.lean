import Trellis.Graph.Document
import Trellis.Proofs.Json.RoundTrip

/-!
# Tags that name no kind

A tag is looked at before anything else of a document is, so that the first action with a tag that
names no kind is reported whatever else is wrong (`ofValue_of_strayTag`).  The look-out is kept for
documents that name their list of actions.  A document may also be the bare list in an array, and
that is only taken apart: the same tag makes it unreadable, and the action is not named
(`ofJson_of_strayTag`).
-/

namespace Trellis

open Json

namespace Kind

/-- A tag that no kind has. -/
theorem ofTag?_eq_none_iff {tag : String} : ofTag? tag = none ↔ tag ∉ all.map Kind.tag := by
  rw [ofTag?, List.find?_eq_none, List.mem_map]
  constructor
  · rintro none ⟨k, hk, rfl⟩
    exact none k hk (beq_self_eq_true _)
  · intro stray k hk same
    exact stray ⟨k, hk, beq_iff_eq.1 same⟩

end Kind

namespace Graph

/-- An object with a tag that is a string and names no kind. -/
structure StrayTag (v : Value) (tag : String) : Prop where
  tagged : ∃ members, v = .object members ∧ Value.lookup members Kind.key = some (.string tag)
  stray : tag ∉ Kind.all.map Kind.tag

/-- The uid that an action is reported under. -/
def reportedUid (v : Value) : String :=
  match v.get? "uid" with
  | some (.string uid) => uid
  | _ => "<unknown>"

theorem getD_uid (v : Value) :
    (v.field? "uid" Value.asString?).getD "<unknown>" = reportedUid v := by
  rw [Value.field?, reportedUid]
  cases v.get? "uid" with
  | none => rfl
  | some w => cases w <;> rfl

theorem StrayTag.field? {v : Value} {tag : String} (h : StrayTag v tag) :
    v.field? Kind.key Value.asString? = some tag := by
  obtain ⟨members, rfl, tagged⟩ := h.tagged
  rw [Value.field?, Value.get?, tagged]
  rfl

/-- What is found of an action is the tag that it strays with. -/
theorem unsupported?_eq_none_iff {v : Value} :
    unsupported? v = none ↔ ∀ tag, ¬ StrayTag v tag := by
  constructor
  · intro nothing tag h
    rw [unsupported?, h.field?] at nothing
    simp [Kind.ofTag?_eq_none_iff.2 h.stray] at nothing
  · intro fine
    unfold unsupported?
    split
    · next tag tagged =>
      split
      · rfl
      · next unknown =>
        have stray := Kind.ofTag?_eq_none_iff.1 (Option.not_isSome_iff_eq_none.1 unknown)
        refine absurd ⟨?_, stray⟩ (fine tag)
        obtain ⟨w, found, text⟩ := Option.bind_eq_some_iff.1 tagged
        cases v with
        | object members =>
          cases w with
          | string s =>
            cases text
            exact ⟨members, rfl, found⟩
          | _ => cases text
        | _ => cases found
    · rfl

theorem StrayTag.unsupported? {v : Value} {tag : String} (h : StrayTag v tag) :
    unsupported? v = some (.unsupportedKind (reportedUid v) tag) := by
  have unknown : (Kind.ofTag? tag).isSome = false := by
    rw [Kind.ofTag?_eq_none_iff.2 h.stray]
    rfl
  simp only [Graph.unsupported?, h.field?, unknown, getD_uid]
  rfl

/-- An action with a stray tag cannot be taken apart. -/
theorem StrayTag.ofValue?_eq_none {v : Value} {tag : String} (h : StrayTag v tag) :
    Action.ofValue? v = none := by
  obtain ⟨members, rfl, tagged⟩ := h.tagged
  have kind : (Value.object members).field? Kind.key Kind.ofValue? = none := by
    rw [Value.field?, Value.get?, tagged]
    exact Kind.ofTag?_eq_none_iff.2 h.stray
  simp only [Action.ofValue?, kind]
  simp

section Lists

variable {v x : Value} {before after : List Value} {tag : String}

/-- **The first stray tag is reported before all else** where the list of actions is named. -/
theorem ofValue_of_strayTag (list : v.get? "actions" = some (.array (before ++ x :: after)))
    (first : ∀ y ∈ before, ∀ other, ¬ StrayTag y other) (stray : StrayTag x tag) :
    ofValue v = .error (.unsupportedKind (reportedUid x) tag) := by
  have items : v.field? "actions" Value.asArray? = some (before ++ x :: after) := by
    rw [Value.field?, list]
    rfl
  have nothing : before.findSome? unsupported? = none :=
    List.findSome?_eq_none_iff.2 fun y hy => unsupported?_eq_none_iff.2 (first y hy)
  have found : firstUnsupported? v = some (.unsupportedKind (reportedUid x) tag) := by
    rw [firstUnsupported?, items, Option.bind_some, List.findSome?_append, nothing,
      List.findSome?_cons, stray.unsupported?]
    rfl
  rw [ofValue, found]

theorem mapM_eq_none_of_strayTag (stray : StrayTag x tag) :
    (before ++ x :: after).mapM Action.ofValue? = none := by
  induction before with
  | nil => rw [List.nil_append, List.mapM_cons, stray.ofValue?_eq_none]; rfl
  | cons y before ih =>
    rw [List.cons_append, List.mapM_cons, ih]
    cases Action.ofValue? y <;> rfl

/-- Where the list of actions is bare, a stray tag makes the document unreadable. -/
theorem ofValue_of_strayTag_bare (stray : StrayTag x tag) :
    ofValue (.array [.array (before ++ x :: after)]) = .error .unreadable := by
  have unread : actionsOfValue? (.array [.array (before ++ x :: after)]) = none :=
    mapM_eq_none_of_strayTag stray
  rw [ofValue, unread]
  rfl

end Lists

/-- **What becomes of the first tag that names no kind**, whatever else is wrong with the document.
It is reported with its action where the list of actions is named; where the list is bare, nothing
is said but that the document is unreadable. -/
theorem ofJson_of_strayTag {cs : List Char} {v x : Value} {before after : List Value} {tag : String}
    (read : Value.read? cs = some v) (first : ∀ y ∈ before, ∀ other, ¬ StrayTag y other)
    (stray : StrayTag x tag) :
    (v.get? "actions" = some (.array (before ++ x :: after)) →
      ofJson cs = .error (.unsupportedKind (reportedUid x) tag))
    ∧ (v = .array [.array (before ++ x :: after)] → ofJson cs = .error .unreadable) := by
  rw [ofJson, read]
  constructor
  · intro list
    exact ofValue_of_strayTag list first stray
  · rintro rfl
    exact ofValue_of_strayTag_bare stray

/-- What has no numbers is read back from its text. -/
theorem read?_compact_of_numbers {v : Value} (none : v.numbers = [])
    (shallow : v.depth ≤ Value.maxDepth) : Value.read? v.compact = some v := by
  apply Value.read?_compact _ shallow
  intro n hn
  rw [none] at hn
  cases hn

/-- An action without its text, an array and an action with a stray tag and no uid. -/
def straying : List Value :=
  [.object [("uid", .string "a"), (Kind.key, .string "Text")], .array [],
    .object [("uid", .null), (Kind.key, .string "Loop")]]

/-- The document that names its list of actions. -/
def strayingNamed : Value := .object [("actions", .array straying)]

/-- The document that is the bare list. -/
def strayingBare : Value := .array [.array straying]

theorem strayTag_straying :
    StrayTag (.object [("uid", .null), (Kind.key, .string "Loop")]) "Loop" :=
  ⟨⟨_, rfl, rfl⟩, by decide⟩

/-- The tag is reported in the one form, in front of what else is wrong, and lost in the other. -/
theorem ofJson_of_strayTag_unnamed :
    ofJson strayingNamed.compact = .error (.unsupportedKind "<unknown>" "Loop")
    ∧ ofJson strayingBare.compact = .error .unreadable := by
  have front : ∀ y ∈ straying.take 2, ∀ other, ¬ StrayTag y other := by
    intro y hy
    rw [← unsupported?_eq_none_iff]
    revert y
    decide
  have named : Value.read? strayingNamed.compact = some strayingNamed :=
    read?_compact_of_numbers rfl (by decide)
  have bare : Value.read? strayingBare.compact = some strayingBare :=
    read?_compact_of_numbers rfl (by decide)
  exact ⟨(@ofJson_of_strayTag _ _ _ _ [] _ named front strayTag_straying).1 rfl,
    (@ofJson_of_strayTag _ _ _ _ [] _ bare front strayTag_straying).2 rfl⟩

/-- A tag that names no kind is not always reported. -/
theorem not_ofJson_of_strayTag :
    ¬ ∀ (cs : List Char) (v x : Value) (before after : List Value) (tag : String),
      Value.read? cs = some v →
      v.get? "actions" = some (.array (before ++ x :: after))
        ∨ v = .array [.array (before ++ x :: after)] →
      (∀ y ∈ before, ∀ other, ¬ StrayTag y other) → StrayTag x tag →
      ofJson cs = .error (.unsupportedKind (reportedUid x) tag) := by
  intro all
  let action : Value := .object [("uid", .string "x"), (Kind.key, .string "Loop")]
  let document : Value := .array [.array [action]]
  have stray : StrayTag action "Loop" := ⟨⟨_, rfl, rfl⟩, by decide⟩
  have read : Value.read? document.compact = some document :=
    read?_compact_of_numbers rfl (by decide)
  have lost : ofJson document.compact = .error .unreadable := by
    rw [ofJson, read]
    exact @ofValue_of_strayTag_bare action [] [] "Loop" stray
  have reported := all _ _ action [] [] "Loop" read (.inr rfl) nofun stray
  rw [lost] at reported
  cases reported

end Graph

end Trellis
