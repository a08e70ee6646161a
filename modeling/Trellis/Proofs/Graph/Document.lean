import Trellis.Graph.Document
import Trellis.Proofs.Graph.Violation
import Trellis.Proofs.Json.Fields

/-!
# Reloading a graph

A graph that is written and read back is the graph with every option unset that is not finite
(`reload_carried`): a document has no number for it, null stands in its place, and null is read as
an option that is left out.  So what is lost with the option is also lost of what is wrong with it,
and the reloading finds the other violations, in their order (`violations_carried`).  A graph with
finite options loses nothing (`reload_of_finiteOptions`).
-/

namespace Trellis

open Json Value

/-! ## What is written fits -/

namespace Task

theorem fits_members (task : Task) : ∀ m ∈ task.members, m.2.Fits 1 := by
  have words : ∀ key o, ∀ m ∈ ifSome key ofWord o, m.2.Fits 1 := fun _ _ =>
    fits_ifSome fits_ofWord
  have floats : ∀ key o, ∀ m ∈ ifSome key ofFloat o, m.2.Fits 1 := fun _ _ =>
    fits_ifSome fits_ofFloat
  cases task with
  | text literal evaluate =>
    exact List.forall_mem_cons.2 ⟨fits_string _, fits_ifSome fits_bool⟩
  | choose choices threshold width =>
    rw [members, List.forall_mem_cons, List.forall_mem_append]
    exact ⟨fits_map fits_string _, floats _ _, words _ _⟩
  | complete c =>
    simp only [members, List.forall_mem_cons, List.forall_mem_append]
    exact ⟨words _ _, fits_string _, ⟨⟨⟨⟨floats _ _, words _ _⟩, words _ _⟩, words _ _⟩,
      floats _ _⟩, floats _ _⟩

end Task

theorem Action.fits_toValue (a : Action) : a.toValue.Fits 2 := by
  apply fits_object
  intro m hm
  simp only [List.mem_cons] at hm
  rcases hm with rfl | rfl | rfl | hm
  · exact fits_string _
  · exact fits_map fits_string _
  · exact fits_string _
  · exact a.task.fits_members m hm

theorem Graph.fits_toValue (g : Graph) : g.toValue.Fits 4 := by
  apply fits_object
  intro m hm
  rw [List.mem_singleton.1 hm]
  exact fits_map Action.fits_toValue _

theorem Graph.read?_toJson {g : Graph} (doubles : g.toValue.DoublesReadBack) :
    read? g.toJson = some g.toValue :=
  read?_compact_of_fits (g.fits_toValue.mono (by decide)) doubles

/-! ## What is written is decoded -/

namespace Task

/-- The task with every option unset that no document has a number for. -/
def carried : Task → Task
  | text literal evaluate => text literal evaluate
  | choose choices threshold width => choose choices (threshold.filter Float.isFinite) width
  | complete c => complete { c with
      threshold := c.threshold.filter Float.isFinite
      diversity := c.diversity.filter Float.isFinite
      repetition := c.repetition.filter Float.isFinite }

end Task

namespace Action

def carried (a : Action) : Action := { a with task := a.task.carried }

/-- The keys that every action has, in front of those of its task. -/
def leadingKeys : List String := ["uid", "successors", Kind.key]

theorem lookup_members_of_mem {task : Task} {key : String} (h : key ∈ leadingKeys) :
    lookup task.members key = none := by
  simp only [leadingKeys, List.mem_cons, List.not_mem_nil, or_false] at h
  rcases h with rfl | rfl | rfl
  all_goals cases task <;> simp [Task.members, lookup, lookup_append, lookup_ifSome, Kind.key]

theorem get?_uid (a : Action) : a.toValue.get? "uid" = some (.string a.uid) := by
  have other : lookup a.task.members "uid" = none := lookup_members_of_mem (by decide)
  simp [toValue, lookup, other, Kind.key]

theorem get?_successors (a : Action) :
    a.toValue.get? "successors" = some (.ofStrings a.successors) := by
  have other : lookup a.task.members "successors" = none := lookup_members_of_mem (by decide)
  simp [toValue, lookup, other, Kind.key]

theorem get?_key (a : Action) : a.toValue.get? Kind.key = some (.string a.kind.tag) := by
  have other : lookup a.task.members Kind.key = none := lookup_members_of_mem (by decide)
  simp [toValue, lookup, other]

/-- Any other key is one of the task. -/
theorem get?_of_notMem (a : Action) {key : String} (h : key ∉ leadingKeys) :
    a.toValue.get? key = lookup a.task.members key := by
  simp only [leadingKeys, List.mem_cons, List.not_mem_nil, or_false, not_or] at h
  obtain ⟨uid, successors, kind⟩ := h
  simp [toValue, lookup, Ne.symm uid, Ne.symm successors, Ne.symm kind]

end Action

namespace Task

/-! Each kind finds its own members under their keys. -/

theorem lookup_text (literal : String) (evaluate : Option Bool) :
    let found := lookup (text literal evaluate).members
    found "text" = some (.string literal) ∧ found "evaluate" = evaluate.map .bool := by
  simp [members, lookup, lookup_ifSome]

theorem lookup_choose (choices : List String) (threshold : Option Float) (width : Option UInt32) :
    let found := lookup (choose choices threshold width).members
    found "choices" = some (.ofStrings choices) ∧ found "threshold" = threshold.map ofFloat
      ∧ found "width" = width.map ofWord := by
  simp [members, lookup, lookup_append, lookup_ifSome]

theorem lookup_complete (c : Completion) :
    let found := lookup (complete c).members
    found "length" = c.length.map ofWord ∧ found "stop" = some (.string c.stop)
      ∧ found "threshold" = c.threshold.map ofFloat ∧ found "width" = c.width.map ofWord
      ∧ found "beams" = c.beams.map ofWord ∧ found "ahead" = c.ahead.map ofWord
      ∧ found "diversity" = c.diversity.map ofFloat
      ∧ found "repetition" = c.repetition.map ofFloat := by
  simp [members, lookup, lookup_append, lookup_ifSome]

section Members

variable {v : Value} {task : Task}
  (found : ∀ key, key ∉ Action.leadingKeys → v.get? key = lookup task.members key)

include found

theorem word_of_found {key : String} {o : Option UInt32} (other : key ∉ Action.leadingKeys)
    (written : lookup task.members key = o.map ofWord) : v.fieldIfAny? key asWord? = some o :=
  fieldIfAny?_map ((found key other).trans written) (fun _ => nofun) asWord?_ofWord

theorem float_of_found {key : String} {o : Option Float} (other : key ∉ Action.leadingKeys)
    (written : lookup task.members key = o.map ofFloat) :
    v.fieldIfAny? key asFloat? = some (o.filter Float.isFinite) :=
  fieldIfAny?_ofFloat ((found key other).trans written)

/-- The members of a task describe it, as far as it is carried. -/
theorem ofMembers?_of_found : ofMembers? v task.kind = some task.carried := by
  cases task with
  | text literal evaluate =>
    obtain ⟨text, written⟩ := lookup_text literal evaluate
    have text : v.field? "text" asString? = some literal := by
      rw [field?, found _ (by decide), text]
      rfl
    have evaluate : v.fieldIfAny? "evaluate" asBool? = some evaluate := by
      apply fieldIfAny?_map ((found _ (by decide)).trans written)
      · exact fun _ => nofun
      · exact fun _ => rfl
    rw [kind, ofMembers?, text, evaluate]
    rfl
  | choose choices threshold width =>
    obtain ⟨written, threshold, width⟩ := lookup_choose choices threshold width
    have choices : v.field? "choices" (asList? asString?) = some choices := by
      rw [field?, found _ (by decide), written]
      exact asList?_ofStrings choices
    have threshold := float_of_found found (by decide) threshold
    have width := word_of_found found (by decide) width
    rw [kind, ofMembers?, choices, threshold, width]
    rfl
  | complete c =>
    obtain ⟨length, stop, threshold, width, beams, ahead, diversity, repetition⟩ :=
      lookup_complete c
    have length := word_of_found found (by decide) length
    have stop : v.fieldOr? "stop" "" asString? = some c.stop := by
      rw [fieldOr?, found _ (by decide), stop]
      rfl
    have threshold := float_of_found found (by decide) threshold
    have width := word_of_found found (by decide) width
    have beams := word_of_found found (by decide) beams
    have ahead := word_of_found found (by decide) ahead
    have diversity := float_of_found found (by decide) diversity
    have repetition := float_of_found found (by decide) repetition
    rw [kind, ofMembers?, length, stop, threshold, width, beams, ahead, diversity, repetition]
    rfl

end Members

end Task

theorem Action.ofValue?_toValue (a : Action) : ofValue? a.toValue = some a.carried := by
  have uid : a.toValue.field? "uid" asString? = some a.uid := by rw [field?, get?_uid]; rfl
  have successors : a.toValue.fieldOr? "successors" [] (asList? asString?)
      = some a.successors := by
    rw [fieldOr?, get?_successors]
    exact asList?_ofStrings _
  have kind : a.toValue.field? Kind.key Kind.ofValue? = some a.kind := by
    rw [field?, get?_key]
    exact Kind.ofValue?_tag _
  have task : Task.ofMembers? a.toValue a.kind = some a.task.carried :=
    Task.ofMembers?_of_found fun _ => a.get?_of_notMem
  simp [ofValue?, uid, successors, kind, task, carried]

namespace Graph

/-- The graph with every option unset that no document has a number for. -/
def carried (g : Graph) : Graph where
  actions := g.actions.map Action.carried
  index := g.index
  index_eq := by rw [List.map_map]; exact g.index_eq

/-- Every kind that is written has a tag that is known. -/
theorem firstUnsupported?_toValue (g : Graph) : firstUnsupported? g.toValue = none := by
  have actions : g.toValue.field? "actions" asArray? = some (g.actions.map Action.toValue) := by
    simp [toValue, field?, lookup, asArray?]
  rw [firstUnsupported?, actions, Option.bind_some, List.findSome?_eq_none_iff]
  intro v hv
  obtain ⟨a, _, rfl⟩ := List.mem_map.1 hv
  have tag : a.toValue.field? Kind.key asString? = some a.kind.tag := by
    rw [field?, Action.get?_key]
    rfl
  simp only [unsupported?, tag, Kind.ofTag?_tag]
  rfl

theorem actionsOfValue?_toValue (g : Graph) :
    actionsOfValue? g.toValue = some (g.actions.map Action.carried) := by
  have actions : asList? Action.ofValue? (.array (g.actions.map Action.toValue))
      = some (g.actions.map Action.carried) :=
    asList?_map_map fun a _ => a.ofValue?_toValue
  simp [actionsOfValue?, toValue, soleField?, field?, lookup, actions]

/-- A graph that is written and reloaded is validated as far as it is carried. -/
theorem reload_carried {g : Graph} (doubles : g.toValue.DoublesReadBack) :
    ofJson g.toJson = match g.carried.violations with
      | [] => .ok g.carried
      | v :: _ => .error (.violation v) := by
  have same : ofActions (g.actions.map Action.carried) = g.carried :=
    ext_actions (actions_ofActions _)
  simp only [ofJson, read?_toJson doubles, ofValue, firstUnsupported?_toValue,
    actionsOfValue?_toValue, same, validate]
  cases g.carried.violations <;> rfl

end Graph

/-! ## What is still wrong -/

/-- What is wrong has nothing to do with a double that no document has a number for. -/
def Violation.isCarried : Violation → Bool
  | badOption _ _ .notFinite => false
  | badOption _ _ (.outsideUnit x) => x.isFinite
  | _ => true

/-- A single violation that is kept stays where it is found. -/
theorem Violation.filter_single {v : Violation} (kept : v.isCarried = true) (c : Prop)
    [Decidable c] : (if c then [v] else []).filter isCarried = if c then [v] else [] := by
  split
  · exact List.filter_cons_of_pos kept
  · rfl

namespace Action

section Options

variable {uid : String}

theorem badThreshold_filter (threshold : Option Float) :
    badThreshold uid (threshold.filter Float.isFinite)
      = (badThreshold uid threshold).filter Violation.isCarried := by
  cases threshold with
  | none => rfl
  | some x =>
    cases finite : x.isFinite with
    | true =>
      rw [Option.filter_some_pos finite, badThreshold]
      split <;> simp [Violation.isCarried, finite]
    | false =>
      rw [Option.filter_some_neg finite, badThreshold, badThreshold]
      split <;> simp [Violation.isCarried, finite]

theorem badWeight_filter (name : OptionName) (weight : Option Float) :
    badWeight uid name (weight.filter Float.isFinite)
      = (badWeight uid name weight).filter Violation.isCarried := by
  cases weight with
  | none => rfl
  | some x =>
    cases finite : x.isFinite with
    | true => rw [Option.filter_some_pos finite, badWeight, if_pos finite]; rfl
    | false => rw [Option.filter_some_neg finite, badWeight, badWeight, finite]; rfl

theorem filter_badCount (name : OptionName) (count : Option UInt32) :
    (badCount uid name count).filter Violation.isCarried = badCount uid name count :=
  Violation.filter_single rfl _

theorem filter_badLength (length : Option UInt32) :
    (badLength uid length).filter Violation.isCarried = badLength uid length := by
  cases length with
  | none => rfl
  | some n => exact Violation.filter_single rfl (n = 0)

theorem isCarried_of_badSuccessor? {known : String → Bool} {successor : String} {v : Violation}
    (h : badSuccessor? known uid successor = some v) : v.isCarried = true := by
  unfold badSuccessor? at h
  split at h
  · cases h
    rfl
  · split at h
    · cases h
    · cases h
      rfl

end Options

theorem optionViolations_carried (a : Action) :
    a.carried.optionViolations = a.optionViolations.filter Violation.isCarried := by
  unfold optionViolations carried
  cases a.task with
  | text literal evaluate => rfl
  | choose choices threshold width =>
    have nothing := Violation.filter_single (v := .badOption a.uid .choices .empty) rfl
    have uneven := Violation.filter_single
      (v := .chooseArity a.uid choices.length a.successors.length) rfl
    simp only [Task.carried, List.filter_append, badThreshold_filter, filter_badCount, nothing,
      uneven]
  | complete c =>
    simp only [Task.carried, List.filter_append, badThreshold_filter, badWeight_filter,
      filter_badCount, filter_badLength]

theorem violations_carried (known : String → Bool) (a : Action) :
    a.carried.violations known = (a.violations known).filter Violation.isCarried := by
  have links : (a.successors.filterMap (badSuccessor? known a.uid)).filter Violation.isCarried
      = a.successors.filterMap (badSuccessor? known a.uid) := by
    rw [List.filter_eq_self]
    intro v hv
    obtain ⟨s, _, bad⟩ := List.mem_filterMap.1 hv
    exact isCarried_of_badSuccessor? bad
  rw [violations, violations, List.filter_append, links, optionViolations_carried]
  rfl

end Action

namespace Graph

theorem violationsFrom_carried (g : Graph) (seen : List String) (actions : List Action) :
    g.carried.violationsFrom seen (actions.map Action.carried)
      = (g.violationsFrom seen actions).filter Violation.isCarried := by
  apply violationsFrom_filter (f := Action.carried)
  · intro a
    rfl
  · intro uid
    rfl
  · exact Action.violations_carried g.contains

/-- What is wrong with what is carried is what is wrong, but for the doubles that are not. -/
theorem violations_carried (g : Graph) :
    g.carried.violations = g.violations.filter Violation.isCarried := by
  have empty : g.carried.isEmpty = g.isEmpty := List.isEmpty_map
  rw [violations, violations, empty]
  split
  · rfl
  · exact g.violationsFrom_carried [] g.actions

/-- **What is still wrong with a graph that is reloaded.**  The first violation that is not about a
double that no document has a number for is reported; where there is none, the graph is accepted
without these doubles. -/
theorem reload_of_violations (g : Graph) (doubles : g.toValue.DoublesReadBack) :
    (∀ v, g.violations.find? Violation.isCarried = some v →
      ofJson g.toJson = .error (.violation v))
    ∧ ((∀ v ∈ g.violations, v.isCarried = false) → ofJson g.toJson = .ok g.carried) := by
  rw [reload_carried doubles, violations_carried, ← List.head?_filter]
  constructor
  · intro v first
    cases kept : g.violations.filter Violation.isCarried with
    | nil =>
      rw [kept] at first
      cases first
    | cons w rest =>
      rw [kept] at first
      cases first
      rfl
  · intro lost
    have nothing : g.violations.filter Violation.isCarried = [] := by
      rw [List.filter_eq_nil_iff]
      intro v hv
      rw [lost v hv]
      decide
    rw [nothing]

/-- The graph of one choice with a threshold that is not a number. -/
def unbounded (width : UInt32) : Graph := .ofActions
  [{ uid := "a", successors := [], task := .choose ["x"] (some (0.0 / 0.0)) (some width) }]

/-- The threshold is lost, and the width behind it is reported. -/
theorem reload_of_violations_unbounded :
    (unbounded 0).toValue.DoublesReadBack
    ∧ (unbounded 0).violations.length = 2
    ∧ ofJson (unbounded 0).toJson = .error (.violation (.badOption "a" .width .belowOne)) := by
  have doubles : (unbounded 0).toValue.DoublesReadBack := by decide +kernel
  have first : (unbounded 0).violations.find? Violation.isCarried
      = some (.badOption "a" .width .belowOne) := by decide +kernel
  exact ⟨doubles, by decide +kernel, (reload_of_violations _ doubles).1 _ first⟩

/-- A graph may be reloaded although something is wrong with it. -/
theorem not_reload_of_violations :
    ¬ ∀ g : Graph, g.toValue.DoublesReadBack → g.violations ≠ [] →
      ∃ e, ofJson g.toJson = .error e := by
  intro all
  have doubles : (unbounded 1).toValue.DoublesReadBack := by decide +kernel
  obtain ⟨e, fails⟩ := all _ doubles (by decide +kernel)
  have nothing : (unbounded 1).carried.violations = [] := by decide +kernel
  rw [reload_carried doubles, nothing] at fails
  cases fails

end Graph

/-! ## Graphs with nothing to lose -/

theorem filter_isFinite {o : Option Float} (h : ∀ x ∈ o.toList, x.isFinite = true) :
    o.filter Float.isFinite = o := by
  cases o with
  | none => rfl
  | some x => exact Option.filter_some_pos (h x List.mem_cons_self)

/-- The doubles among the options that are set. -/
def Task.doubles : Task → List Float
  | text .. => []
  | choose _ threshold _ => threshold.toList
  | complete c => c.threshold.toList ++ c.diversity.toList ++ c.repetition.toList

theorem Task.carried_of_finite {task : Task} (h : ∀ x ∈ task.doubles, x.isFinite = true) :
    task.carried = task := by
  cases task with
  | text literal evaluate => rfl
  | choose choices threshold width =>
    have threshold : threshold.filter Float.isFinite = threshold := filter_isFinite h
    rw [carried, threshold]
  | complete c =>
    rw [doubles, List.forall_mem_append, List.forall_mem_append] at h
    obtain ⟨⟨threshold, diversity⟩, repetition⟩ := h
    rw [carried, filter_isFinite threshold, filter_isFinite diversity, filter_isFinite repetition]

namespace Graph

/-- The doubles among the options of the actions. -/
def doubles (g : Graph) : List Float := g.actions.flatMap fun a => a.task.doubles

/-- Every double among the options is finite. -/
def FiniteOptions (g : Graph) : Prop := ∀ x ∈ g.doubles, x.isFinite = true

instance (g : Graph) : Decidable g.FiniteOptions :=
  List.decidableBAll (fun x : Float => x.isFinite = true) g.doubles

theorem carried_of_finiteOptions {g : Graph} (finite : g.FiniteOptions) : g.carried = g := by
  have each : ∀ a ∈ g.actions, a.carried = a := by
    intro a ha
    have task : a.task.carried = a.task :=
      Task.carried_of_finite fun x hx => finite x (List.mem_flatMap.2 ⟨a, ha, hx⟩)
    rw [Action.carried, task]
  apply ext_actions
  change g.actions.map Action.carried = g.actions
  rw [List.map_congr_left each, List.map_id']

/-- **A graph with finite options is reloaded as it is**, with the same actions and the same index;
where it is not valid, the first of its violations is reported. -/
theorem reload_of_finiteOptions (g : Graph) (finite : g.FiniteOptions)
    (doubles : g.toValue.DoublesReadBack) :
    ofJson g.toJson = match g.violations with
      | [] => .ok g
      | v :: _ => .error (.violation v) := by
  rw [reload_carried doubles, carried_of_finiteOptions finite]

/-- A graph of every kind of action, the last of which has a uid that is given. -/
def mixed (uid : String) : Graph := .ofActions
  [{ uid := "a", successors := ["b"], task := .choose ["x", "y"] (some 0.25) none },
    { uid := "b", successors := [], task := .text "\n" (some false) },
    { uid, successors := ["b", "b"],
      task := .complete { length := some 3, width := some 2, diversity := some (-1.5) } }]

/-- The graph is accepted when its uids are distinct, and refused for the one that is repeated. -/
theorem reload_of_finiteOptions_mixed :
    ((mixed "c").FiniteOptions ∧ (mixed "c").toValue.DoublesReadBack
      ∧ ofJson (mixed "c").toJson = .ok (mixed "c"))
    ∧ (mixed "b").FiniteOptions ∧ (mixed "b").toValue.DoublesReadBack
      ∧ ofJson (mixed "b").toJson = .error (.violation (.duplicateUid "b")) := by
  have finite : ∀ uid, (mixed uid).FiniteOptions := by
    intro uid
    change ∀ x ∈ [0.25, -1.5], Float.isFinite x = true
    decide +kernel
  have doubles : ∀ uid, (mixed uid).toValue.DoublesReadBack := by
    intro uid
    change ∀ x ∈ [0.25, -1.5], (Number.float x).ReadsBack
    decide +kernel
  have valid : (mixed "c").violations = [] := by decide +kernel
  obtain ⟨rest, repeated⟩ : ∃ rest, (mixed "b").violations = .duplicateUid "b" :: rest := ⟨_, rfl⟩
  have accepted := reload_of_finiteOptions (mixed "c") (finite _) (doubles _)
  have refused := reload_of_finiteOptions (mixed "b") (finite _) (doubles _)
  rw [valid] at accepted
  rw [repeated] at refused
  exact ⟨⟨finite _, doubles _, accepted⟩, finite _, doubles _, refused⟩

end Graph

end Trellis
