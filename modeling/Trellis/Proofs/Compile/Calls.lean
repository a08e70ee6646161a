import Trellis.Proofs.Compile.Validation
import Trellis.Tokenizer.Character

/-!
# What a compilation asks for

Each part of the compilation is specified by the literals that belong to it: it `Asks` for them in
order, it ends with the first one that is refused, and where none is it succeeds and has asked for
each of them once.  The specification of two parts in a row is that of the literals of both
(`Asks.bind`), so the one of the whole is put together along the graph.  Around it stand the checks,
which ask for nothing (`asks_of_compile`).
-/

namespace Trellis

open Asking

namespace Compile

/-- A literal and the uid of its action. -/
structure Literal where
  uid : String
  text : String
  deriving DecidableEq

namespace Literal

/-- The literals of an action in order. -/
def ofAction (a : Action) : List Literal := a.task.literals.map (mk a.uid)

/-- The literals of some actions in order. -/
def ofActions (actions : List Action) : List Literal := actions.flatMap ofAction

/-- The call for the tokens of a literal, with neither a start nor an end token. -/
def call (l : Literal) : Call := .tokenize l.text false false

/-- The tokenizer has tokens for the literal. -/
def Spelled (t : Tokenizer ρ) (l : Literal) : Prop := ∃ tokens, Spells t l.text tokens

/-- The tokenizer refuses the literal. -/
def Refused (t : Tokenizer ρ) (cause : ρ) (l : Literal) : Prop :=
  t.tokenize l.text false false = .error cause

/-- Unless all of some literals are spelled, there is a first one that is refused. -/
theorem spelled_or_refused (t : Tokenizer ρ) (ls : List Literal) :
    (∀ l ∈ ls, l.Spelled t) ∨ ∃ before l after cause, ls = before ++ l :: after
      ∧ (∀ b ∈ before, b.Spelled t) ∧ l.Refused t cause := by
  induction ls with
  | nil => exact .inl nofun
  | cons l ls ih =>
    cases answer : t.tokenize l.text false false with
    | error cause => exact .inr ⟨[], l, ls, cause, rfl, nofun, answer⟩
    | ok tokens =>
      have first : l.Spelled t := ⟨tokens, answer⟩
      rcases ih with all | ⟨before, m, after, cause, rfl, spelled, refused⟩
      · exact .inl (List.forall_mem_cons.2 ⟨first, all⟩)
      · exact .inr ⟨l :: before, m, after, cause, rfl, List.forall_mem_cons.2 ⟨first, spelled⟩,
          refused⟩

end Literal

/-! ## The specification of work that asks for literals -/

/-- The work asks for some literals in order, up to the first that is refused. -/
structure Asks {α : Type} (t : Tokenizer ρ) (ls : List Literal) (x : Asking (CompileError ρ) α) :
    Prop where
  /-- Where none is refused, the work succeeds and has asked for each of them once. -/
  spelled : (∀ l ∈ ls, l.Spelled t) → (∃ a, outcome x = .ok a) ∧ calls x = ls.map Literal.call
  /-- The first one that is refused is named, and those behind it are not asked for. -/
  refused : ∀ before l after cause, ls = before ++ l :: after → (∀ b ∈ before, b.Spelled t) →
    l.Refused t cause →
      outcome x = .error (.literal l.uid l.text cause)
      ∧ calls x = (before ++ [l]).map Literal.call

namespace Asks

variable {α β : Type} {t : Tokenizer ρ} {ls : List Literal} {x : Asking (CompileError ρ) α}

/-- Work that is done asks for nothing. -/
theorem done (a : α) : Asks t [] (pure a) where
  spelled _ := ⟨⟨a, rfl⟩, rfl⟩
  refused before l after cause split := by
    cases before <;> cases split

/-- With every literal of the first part spelled, the work goes on with the second. -/
theorem goes_on (first : Asks t ls x) (all : ∀ l ∈ ls, l.Spelled t)
    (f : α → Asking (CompileError ρ) β) :
    ∃ a, outcome x = .ok a ∧ outcome (x >>= f) = outcome (f a)
      ∧ calls (x >>= f) = ls.map Literal.call ++ calls (f a) := by
  obtain ⟨⟨a, ok⟩, asked⟩ := first.spelled all
  refine ⟨a, ok, ?_, ?_⟩
  · rw [outcome_bind, ok]
    rfl
  · rw [calls_bind, ok, asked]

/-- Work in a row asks for the literals of its parts in a row. -/
theorem bind {more : List Literal} {f : α → Asking (CompileError ρ) β} (first : Asks t ls x)
    (second : ∀ a, outcome x = .ok a → Asks t more (f a)) : Asks t (ls ++ more) (x >>= f) := by
  constructor
  · intro all
    rw [List.forall_mem_append] at all
    obtain ⟨a, ok, ends, asked⟩ := first.goes_on all.1 f
    obtain ⟨⟨b, ok'⟩, asked'⟩ := (second a ok).spelled all.2
    rw [ends, asked, asked', List.map_append]
    exact ⟨⟨b, ok'⟩, rfl⟩
  · intro before l after cause split spelled refused
    -- the literal that is refused is one of the second part, or one of the first
    have later : ∀ rest, before = ls ++ rest → more = rest ++ l :: after →
        outcome (x >>= f) = .error (.literal l.uid l.text cause)
        ∧ calls (x >>= f) = (before ++ [l]).map Literal.call := by
      rintro rest rfl rfl
      rw [List.forall_mem_append] at spelled
      obtain ⟨a, ok, ends, asked⟩ := first.goes_on spelled.1 f
      obtain ⟨failed, asked'⟩ := (second a ok).refused rest l after cause rfl spelled.2 refused
      rw [ends, asked, failed, asked', List.append_assoc, @List.map_append _ _ _ ls]
      exact ⟨rfl, rfl⟩
    rcases List.append_eq_append_iff.1 split with ⟨rest, front, back⟩ | ⟨rest, front, back⟩
    · exact later rest front back
    · cases rest with
      | nil =>
        rw [List.append_nil] at front
        exact later [] (by rw [front, List.append_nil]) back.symm
      | cons m rest =>
        cases back
        obtain ⟨failed, asked⟩ := first.refused before l rest cause front spelled refused
        rw [outcome_bind, calls_bind, failed, asked, List.append_nil]
        exact ⟨rfl, rfl⟩

/-- What is computed from the result asks for nothing more. -/
theorem map (f : α → β) (h : Asks t ls x) : Asks t ls (x >>= fun a => pure (f a)) := by
  have whole := h.bind fun a _ => done (f a)
  rwa [List.append_nil] at whole

/-- Work that asks for literals makes no other calls. -/
theorem isTokenize (h : Asks t ls x) : ∀ c ∈ calls x, c.isTokenize = true := by
  have each : ∀ ms : List Literal, ∀ c ∈ ms.map Literal.call, c.isTokenize = true := by
    intro ms c hc
    obtain ⟨l, _, rfl⟩ := List.mem_map.1 hc
    rfl
  rcases Literal.spelled_or_refused t ls with all | ⟨before, l, after, cause, split, first⟩
  · rw [(h.spelled all).2]
    exact each ls
  · rw [(h.refused before l after cause split first.1 first.2).2]
    exact each _

end Asks

/-! ## The parts of a compilation -/

section Parts

variable {t : Tokenizer ρ} {d : Defaults} {mask : Mask}

theorem asks_literal (uid text : String) : Asks t [⟨uid, text⟩] (literal t uid text) := by
  constructor
  · intro all
    obtain ⟨tokens, spelled⟩ := all _ List.mem_cons_self
    exact ⟨⟨tokens, literal_eq_ok_iff.2 spelled⟩, rfl⟩
  · intro before l after cause split _ refused
    obtain ⟨rfl, rfl, rfl⟩ : before = [] ∧ l = ⟨uid, text⟩ ∧ after = [] := by
      cases before with
      | nil =>
        cases split
        exact ⟨rfl, rfl, rfl⟩
      | cons b before => cases before <;> cases split
    refine ⟨?_, rfl⟩
    rw [literal, outcome_ofCall, Tokenizer.askTokens]
    exact congrArg (Except.mapError _) refused

theorem asks_literals (uid : String) (texts : List String) :
    Asks t (texts.map (Literal.mk uid)) (literals t uid texts) := by
  induction texts with
  | nil => exact .done []
  | cons text texts ih =>
    exact (asks_literal uid text).bind fun tokens _ => ih.map (tokens :: ·)

/-- A sound action is asked for by its literals; only a completion without a length is not. -/
theorem asks_record {a : Action} (sound : a.Sound) :
    Asks t (Literal.ofAction a) (record t d mask a) := by
  have task : Asks t (Literal.ofAction a) (Compile.task t d mask a.uid a.task) := by
    rw [Action.Sound] at sound
    rw [Literal.ofAction]
    cases source : a.task with
    | text literal evaluate => exact (asks_literal a.uid literal).map _
    | choose choices threshold width => exact (asks_literals a.uid choices).map _
    | complete c =>
      rw [source] at sound
      obtain ⟨⟨length, set, _⟩, _⟩ := sound
      rw [Compile.task, set]
      exact (asks_literal a.uid c.stop).map _
  exact task.map fun target : Wire.Task =>
    ({ uid := a.uid, successors := a.broadcast, task := target } : Wire.Record)

theorem asks_records {actions : List Action} (sound : ∀ a ∈ actions, a.Sound) :
    Asks t (Literal.ofActions actions) (records t d mask actions) := by
  induction actions with
  | nil => exact .done []
  | cons a actions ih =>
    rw [List.forall_mem_cons] at sound
    exact (asks_record sound.1).bind fun r _ => (ih sound.2).map (r :: ·)

/-- Records in a row spell the literals of their actions in a row. -/
theorem spells_of_records {actions : List Action} {rs : List Wire.Record}
    (h : List.Forall₂ (RecordOf t d mask) actions rs) :
    List.Forall₂ (fun l tokens => Spells t l.text tokens) (Literal.ofActions actions)
      (rs.flatMap fun r => r.task.sequences) := by
  induction h with
  | nil => exact .nil
  | cons record _ ih =>
    rw [Literal.ofActions, List.flatMap_cons, List.flatMap_cons]
    apply List.rel_append _ ih
    rw [Literal.ofAction, List.forall₂_map_left_iff]
    exact record.task.sequences

/-- Past the checks, a compilation asks for the literals of the graph. -/
theorem asks_compile {g : Graph} (checked : check g d mask t = .ok ()) :
    Asks t (Literal.ofActions g.actions) (compile g d mask t) := by
  have sound := (check_eq_ok_iff.1 checked).1.sound
  rw [compile, checked]
  exact (Asks.done ()).bind fun _ _ => (asks_records sound).map Wire.mk

/-- A check that fails is reported before anything is asked for. -/
theorem compile_of_check {g : Graph} {e : CompileError ρ} (fails : check g d mask t = .error e) :
    outcome (compile g d mask t) = .error e ∧ calls (compile g d mask t) = [] := by
  rw [compile, outcome_bind, calls_bind, fails]
  exact ⟨rfl, rfl⟩

theorem isTokenize_of_compile {g : Graph} :
    ∀ c ∈ calls (compile g d mask t), c.isTokenize = true := by
  cases checked : check g d mask t with
  | error e =>
    rw [(compile_of_check checked).2]
    exact nofun
  | ok done => exact (asks_compile checked).isTokenize

end Parts

end Compile

/-- **What a compilation asks for, and how it ends.**  A violation of the graph, a fault of the
table and a mask of the wrong size are reported in this order, and nothing is asked for.  Past the
checks the literals are asked for in order.  The first one that is refused is named, and those
behind it are not asked for; where none is, each has been asked for once, and the records have the
uids of the actions and the tokens of the literals, in their order.  No text is ever asked for. -/
theorem calls_of_compile (g : Graph) (d : Defaults) (mask : Mask) (t : Tokenizer ρ) :
    let work := compile g d mask t
    let literals := Compile.Literal.ofActions g.actions
    (∀ v rest, g.violations = v :: rest →
      outcome work = .error (.graph v) ∧ calls work = [])
    ∧ (∀ f, g.violations = [] → d.validate = .error f →
      outcome work = .error (.defaults f) ∧ calls work = [])
    ∧ (g.violations = [] → d.validate = .ok () → mask.size ≠ t.vocabSize →
      outcome work = .error (.maskSize mask.size t.vocabSize) ∧ calls work = [])
    ∧ (g.violations = [] → d.validate = .ok () → mask.size = t.vocabSize →
      (∀ before l after cause, literals = before ++ l :: after → (∀ b ∈ before, b.Spelled t) →
        l.Refused t cause →
          outcome work = .error (.literal l.uid l.text cause)
          ∧ calls work = (before ++ [l]).map Compile.Literal.call)
      ∧ ((∀ l ∈ literals, l.Spelled t) → ∃ w, outcome work = .ok w
          ∧ calls work = literals.map Compile.Literal.call
          ∧ w.records.map Wire.Record.uid = g.actions.map Action.uid
          ∧ List.Forall₂ (fun l tokens => Compile.Spells t l.text tokens) literals
            (w.records.flatMap fun r => r.task.sequences)))
    ∧ work.run.tokenizeCalls = (calls work).length ∧ work.run.detokenizeCalls = 0 := by
  intro work literals
  refine ⟨?_, ?_, ?_, ?_, ?_, ?_⟩
  · intro v rest violated
    apply Compile.compile_of_check
    rw [Compile.check, Graph.validate, violated]
    rfl
  · intro f valid fault
    apply Compile.compile_of_check
    rw [Compile.check, Graph.validate, valid, fault]
    rfl
  · intro valid table other
    apply Compile.compile_of_check
    rw [Compile.check, Graph.validate, valid, table, if_neg other]
    rfl
  · intro valid table size
    have checked : Compile.check g d mask t = .ok () := by
      rw [Compile.check, Graph.validate, valid, table, if_pos size]
      rfl
    have asks : Compile.Asks t literals work := Compile.asks_compile checked
    refine ⟨asks.refused, ?_⟩
    intro all
    obtain ⟨⟨w, ok⟩, asked⟩ := asks.spelled all
    have records := (compile_eq_ok_iff.1 ok).2
    exact ⟨w, ok, asked, uids_of_compile ok, Compile.spells_of_records records⟩
  · exact List.countP_eq_length.2 Compile.isTokenize_of_compile
  · rw [Metered.detokenizeCalls, List.countP_eq_zero]
    intro c hc text
    have tokens : c.isTokenize = true := Compile.isTokenize_of_compile c hc
    cases c with
    | tokenize => cases text
    | detokenize => cases tokens

/-- The sample with a choice that the character tokenizer has no token for. -/
def foreignGraph : Graph := .ofActions
  [{ uid := "pick", successors := ["fill"], task := .choose ["yes", "λ", "no"] none none },
    { uid := "fill", successors := [], task := .complete { length := some 4, stop := "." } }]

/-- For the sample the character tokenizer is asked three times.  With the foreign choice it is
asked twice, and the choice is named. -/
theorem calls_of_compile_foreignGraph :
    (∃ w, outcome (compile sampleGraph {} (.allowAll 134) .character) = .ok w
      ∧ (compile sampleGraph {} (.allowAll 134) .character).run.tokenizeCalls = 3)
    ∧ outcome (compile foreignGraph {} (.allowAll 134) .character)
        = .error (.literal "pick" "λ" (.foreignCharacter 'λ'))
      ∧ (compile foreignGraph {} (.allowAll 134) .character).run.tokenizeCalls = 2 := by
  have size : (Mask.allowAll 134).size = Tokenizer.character.vocabSize := List.length_replicate
  constructor
  · have spelled : ∀ l ∈ Compile.Literal.ofActions sampleGraph.actions,
        l.Spelled .character := by
      change ∀ l ∈ [⟨"pick", "yes"⟩, ⟨"pick", "no"⟩, ⟨"fill", "."⟩],
        Compile.Literal.Spelled .character l
      simp only [List.forall_mem_cons]
      exact ⟨⟨_, rfl⟩, ⟨_, rfl⟩, ⟨_, rfl⟩, nofun⟩
    obtain ⟨_, _, _, passed, count, _⟩ :=
      calls_of_compile sampleGraph {} (.allowAll 134) .character
    obtain ⟨w, ok, asked, _⟩ := (passed (by decide +kernel) (by decide +kernel) size).2 spelled
    rw [count, asked]
    exact ⟨w, ok, rfl⟩
  · have spelled : ∀ l ∈ [⟨"pick", "yes"⟩], Compile.Literal.Spelled .character l :=
      List.forall_mem_singleton.2 ⟨_, rfl⟩
    obtain ⟨_, _, _, passed, count, _⟩ :=
      calls_of_compile foreignGraph {} (.allowAll 134) .character
    obtain ⟨failed, asked⟩ := (passed (by decide +kernel) (by decide +kernel) size).1
      [⟨"pick", "yes"⟩] ⟨"pick", "λ"⟩ _ (.foreignCharacter 'λ') rfl spelled rfl
    rw [count, asked]
    exact ⟨failed, rfl⟩

end Trellis
