import Mathlib.Data.List.Infix
import Trellis.Proofs.Tree.Reading

/-!
# The guard of the reader

A tree is read without a limit on open levels, since a text that nests too deeply is refused before.
That is safe for any text, well formed or not.  Up to its first illegal token a text is counted as
its tokens are, also where the count goes on differently from there (`Nesting.deepest_le_run`); the
reader goes no further than that, so it never has more levels open than the count has seen
(`Doc.level_le_nesting`).  A limit that the count does not exceed is therefore never met, and makes
no difference (`Doc.read_of_nesting_le`).
-/

namespace Trellis

namespace Json

/-! ## The count up to the first illegal token -/

namespace Nesting

variable {n : Nesting} {s : Scan} {taken : List Token}

theorem le_feed (n : Nesting) (c : Char) : n.deepest ≤ (n.feed c).deepest := by
  unfold feed
  repeat' split
  all_goals first | exact Nat.le_refl _ | exact Nat.le_max_left _ _

theorem le_run (n : Nesting) (cs : List Char) : n.deepest ≤ (n.run cs).deepest := by
  induction cs generalizing n with
  | nil => exact Nat.le_refl _
  | cons c cs ih => exact Nat.le_trans (n.le_feed c) (ih (n.feed c))

/-- No more is open than was open at once. -/
theorem depth_le_tokens (h : n.depth ≤ n.deepest) (ts : List Token) :
    (n.tokens ts).depth ≤ (n.tokens ts).deepest := by
  induction ts generalizing n with
  | nil => exact h
  | cons t ts ih =>
    apply ih
    cases t with
    | openArray | openObject => exact Nat.le_max_right _ _
    | closeArray | closeObject => exact Nat.le_trans (Nat.sub_le _ _) h
    | _ => exact h

theorem eq_of_prefix_of_length {ts : List Token} (part : taken <+: ts) (short : ts.length ≤ 1) :
    taken = [] ∨ taken = ts := by
  cases taken with
  | nil => exact .inl rfl
  | cons t taken =>
    refine .inr (part.eq_of_length_le (Nat.le_trans short ?_))
    rw [List.length_cons]
    omega

theorem length_start_le (c : Char) : (Scan.start c).1.length ≤ 1 := by
  fun_cases Scan.start c <;> simp

/-- Of the tokens that one character completes only the last one is counted: a word or a numeral
in front of it is not. -/
theorem tokens_of_prefix_feed {c : Char} (part : taken <+: (s.feed c).1) (n : Nesting) :
    taken = (s.feed c).1 ∨ n.tokens taken = n := by
  have alone {ts : List Token} (part : taken <+: ts) (short : ts.length ≤ 1) :
      taken = ts ∨ n.tokens taken = n := by
    rcases eq_of_prefix_of_length part short with rfl | rfl
    · exact .inr rfl
    · exact .inl rfl
  -- `t` is the word or numeral that the character ends
  have behind {t : Token} (part : taken <+: t :: (Scan.start c).1) (uncounted : n.token t = n) :
      taken = t :: (Scan.start c).1 ∨ n.tokens taken = n := by
    rcases List.prefix_cons_iff.1 part with rfl | ⟨later, rfl, below⟩
    · exact .inr rfl
    rcases eq_of_prefix_of_length below (length_start_le c) with rfl | rfl
    · exact .inr uncounted
    · exact .inl rfl
  revert part
  cases s with
  | between => exact fun part => alone part (length_start_le c)
  | word cs =>
    rw [Scan.feed]
    split
    · exact fun part => alone part (Nat.zero_le _)
    · exact fun part => behind part (token_ofWord n _)
  | numeral cs =>
    rw [Scan.feed]
    split
    · exact fun part => alone part (Nat.zero_le _)
    · exact fun part => behind part (token_ofNumeral n _)
  | string ps | escape ps | unit ps left value =>
    intro part
    refine alone part ?_
    rw [Scan.feed]
    repeat' split
    all_goals simp
  | stuck => exact fun part => alone part (Nat.zero_le _)

/-- **Tokens that are read are counted**: up to the first illegal one, whatever comes behind. -/
theorem deepest_le_run {cs : List Char} (paced : n.Paced s) (part : taken <+: s.run cs)
    (legal : Token.illegal ∉ taken) : (n.tokens taken).deepest ≤ (n.run cs).deepest := by
  -- the pace is kept as long as no token is illegal, and from there on the count only grows
  induction cs generalizing n s taken with
  | nil =>
    have short : s.finish.length ≤ 1 := by cases s <;> simp [Scan.finish]
    rcases eq_of_prefix_of_length part short with rfl | rfl
    · exact Nat.le_refl _
    · exact Nat.le_of_eq (congrArg deepest (tokens_finish n s))
  | cons c cs ih =>
    have further {later : List Token} (part : later <+: (s.feed c).2.run cs)
        (legal : Token.illegal ∉ (s.feed c).1 ++ later) :
        (n.tokens ((s.feed c).1 ++ later)).deepest ≤ (n.run (c :: cs)).deepest := by
      rw [List.mem_append, not_or] at legal
      have fed := fed_feed paced legal.1
      have rest := ih fed.paced part legal.2
      rwa [fed.feed, tokens_inside, ← tokens_append, ← fed.feed] at rest
    rw [Scan.run_cons] at part
    -- the part ends among the tokens of this character, or behind them
    rcases List.prefix_or_prefix_of_prefix part (List.prefix_append _ _) with inside | ⟨later, rfl⟩
    · rcases tokens_of_prefix_feed inside n with rfl | none
      · simpa using further List.nil_prefix (by simpa using legal)
      · rw [none]
        exact le_run n (c :: cs)
    · exact further ((List.prefix_append_right_inj _).1 part) legal

end Nesting

/-! ## The levels of the reader -/

namespace Doc

/-- **The reader never has more levels open than the brackets of its text nest**, as far as it
gets. -/
theorem level_le_nesting {limit : Option Nat} {cs : List Char} {taken : List Token} {s : State}
    (part : taken <+: Token.scan cs) (reached : steps limit (.value []) taken = .ok s) :
    s.level ≤ nesting cs := by
  have outside : Counts .start (.value []) := ⟨rfl, rfl⟩
  have counts := counts_steps outside reached
  have paced : Nesting.start.Paced .between := ⟨rfl, nofun⟩
  have counted := Nesting.deepest_le_run paced part (illegal_not_mem_of_steps reached)
  calc s.level = (Nesting.start.tokens taken).depth := counts.level.symm
    _ ≤ (Nesting.start.tokens taken).deepest := Nesting.depth_le_tokens (Nat.le_refl _) taken
    _ ≤ nesting cs := counted

/-! ## A limit that is not met -/

section Limit

variable {most : Nat} {around : List Frame} {s : State} {t : Token}

theorem roomB_of_le (h : around.length + 1 ≤ most) : roomB (some most) around.length = true :=
  decide_eq_true h

/-- A limit makes no difference to a token behind which no more levels are open. -/
theorem begin_of_level_le
    (within : ∀ s, begin none around t = .ok s → s.level ≤ most) :
    begin (some most) around t = begin none around t := by
  cases t with
  | openArray =>
    rw [begin, begin, if_pos (roomB_of_le (within (.firstItem around) rfl))]
    rfl
  | openObject =>
    rw [begin, begin, if_pos (roomB_of_le (within (.firstKey around) rfl))]
    rfl
  | _ => rfl

theorem step_of_level_le (within : ∀ s', step none s t = .ok s' → s'.level ≤ most) :
    step (some most) s t = step none s t := by
  cases s with
  | value around => exact begin_of_level_le within
  | firstItem around =>
    -- an item begins in the array that is open around it
    by_cases closing : t = .closeArray
    · rw [closing]
      rfl
    · have item (limit : Option Nat) :
          step limit (.firstItem around) t = begin limit (.array [] :: around) t := by
        cases t <;> first | rfl | contradiction
      simp only [item] at within ⊢
      exact begin_of_level_le within
  | _ => cases t <;> rfl

/-- A reader that stays within the limit reads as it does without one. -/
theorem steps_of_level_le {ts : List Token}
    (within : ∀ taken s', taken <+: ts → steps none s taken = .ok s' → s'.level ≤ most) :
    steps (some most) s ts = steps none s ts := by
  induction ts generalizing s with
  | nil => rfl
  | cons t ts ih =>
    have first : step (some most) s t = step none s t := by
      apply step_of_level_le
      intro s' reached
      refine within [t] s' (List.prefix_append [t] ts) ?_
      rw [steps_cons, reached]
      rfl
    rw [steps_cons, steps_cons, first]
    cases reached : step none s t with
    | error e => rfl
    | ok middle =>
      apply ih
      intro taken s' part later
      refine within (t :: taken) s' ((List.prefix_cons_inj t).2 part) ?_
      rw [steps_cons, reached]
      exact later

end Limit

/-- **A limit that the brackets of a text do not exceed makes no difference**, not even to why the
text is not read. -/
theorem read_of_nesting_le {most : Nat} {cs : List Char} (h : nesting cs ≤ most) :
    read (some most) cs = read none cs := by
  have same : steps (some most) (.value []) (Token.scan cs)
      = steps none (.value []) (Token.scan cs) := by
    apply steps_of_level_le
    intro taken s part reached
    exact Nat.le_trans (level_le_nesting part reached) h
  rw [read, read, same]

end Doc

end Json

/-! ## The guard -/

namespace RawTree

open Json

/-- A text is let through to the reader when its brackets nest within two levels for each node. -/
theorem let_through_iff {cs : List Char} :
    (∀ levels, ofJson cs ≠ .error (.nested levels)) ↔ nesting cs ≤ 2 * maxDepth := by
  unfold ofJson
  by_cases deep : 2 * maxDepth < nesting cs
  · rw [if_pos deep]
    exact ⟨fun through => absurd rfl (through _), fun shallow => absurd deep (Nat.not_lt.2 shallow)⟩
  · rw [if_neg deep]
    refine ⟨fun _ => Nat.not_lt.1 deep, fun _ levels => ?_⟩
    split <;> nofun

/-- **Reading without a limit is safe.**  Whatever the text, and wherever the reader stands in it, no
more arrays and objects are open than its brackets nest; so a text that is let through is read as it
would be with a limit of two levels for each node. -/
theorem read_within_nesting (cs : List Char) :
    (∀ taken s, taken <+: Token.scan cs → Doc.steps none (.value []) taken = .ok s →
      s.level ≤ nesting cs)
    ∧ ((∀ levels, ofJson cs ≠ .error (.nested levels)) →
      Doc.read (some (2 * maxDepth)) cs = Doc.read none cs
      ∧ ofJson cs = match read? (some (2 * maxDepth)) cs with
        | some t => .ok t
        | none => .error .unreadable) := by
  refine ⟨fun taken s part reached => Doc.level_le_nesting part reached, fun through => ?_⟩
  have shallow := let_through_iff.1 through
  have same := Doc.read_of_nesting_le shallow
  have agreed : read? (some (2 * maxDepth)) cs = read? none cs := by rw [read?, read?, same]
  refine ⟨same, ?_⟩
  rw [agreed]
  exact if_neg (Nat.not_lt.2 shallow)

/-- Three levels, with brackets and a quote in a key, and then a word that is broken off by brackets
which the count goes on with. -/
def torn : List Char :=
  ['[', '\x7b', '"', ']', '\\', '"', '[', '"', ':', '[', '7', ',', 't', 'r', '[', '[', '[']

/-- The reader has three levels open where it stops, at the broken word, with the limit or
without. -/
theorem read_within_nesting_torn :
    (∃ taken s, taken <+: Token.scan torn ∧ Doc.steps none (.value []) taken = .ok s
      ∧ s.level = 3 ∧ s.level ≤ nesting torn)
    ∧ (∀ levels, ofJson torn ≠ .error (.nested levels))
    ∧ Doc.read (some (2 * maxDepth)) torn = .error .misplaced := by
  obtain ⟨within, same⟩ := read_within_nesting torn
  have part : (Token.scan torn).take 7 <+: Token.scan torn := List.take_prefix 7 _
  have through : ∀ levels, ofJson torn ≠ .error (.nested levels) :=
    let_through_iff.2 (by decide)
  refine ⟨⟨_, _, part, rfl, rfl, within _ _ part rfl⟩, through, ?_⟩
  rw [(same through).1]
  rfl

end RawTree

end Trellis
