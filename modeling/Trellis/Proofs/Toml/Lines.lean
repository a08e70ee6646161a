import Trellis.Proofs.Toml.Scalar

/-!
# Written lines are read back

A header and an assignment, as they are written to a table file, are each read as one statement, and
the reader then stands at the start of the next line.  A key is one run of characters, and a value
is one run or two with a point between them.
-/

namespace Trellis.Toml

/-! ## Tokens of a line -/

/-- Characters without a meaning of their own, at least one. -/
structure IsRun (cs : List Char) : Prop where
  nonempty : cs ≠ []
  plain : ∀ c ∈ cs, Scan.ends c = false

theorem isPlain_of_all {cs : List Char} (h : (cs.all fun c => !Scan.ends c) = true) :
    ∀ c ∈ cs, Scan.ends c = false := by
  intro c hc
  have other := List.all_eq_true.1 h c hc
  simpa using other

namespace Scan

/-- A character that does not end a run begins one. -/
theorem start_of_not_ends {c : Char} (h : ends c = false) : start c = ([], atom [c]) := by
  simp only [ends, Bool.or_eq_false_iff, decide_eq_false_iff_not, Option.isSome_eq_false_iff,
    Option.isNone_iff_eq_none] at h
  obtain ⟨⟨⟨⟨⟨⟨single, blank⟩, newline⟩, carriage⟩, hash⟩, double⟩, quote⟩ := h
  rw [start, single]
  dsimp only
  rw [blank, if_neg (by decide), if_neg newline, if_neg carriage, if_neg hash,
    if_neg (not_or_intro double quote)]

theorem run_atom_append {cs : List Char} (plain : ∀ c ∈ cs, ends c = false) (held rest : List Char) :
    run (atom held) (cs ++ rest) = run (atom (cs.reverse ++ held)) rest := by
  induction cs generalizing held with
  | nil => rfl
  | cons c cs ih =>
    have first : feed (atom held) c = ([], atom (c :: held)) := by
      rw [feed, plain c List.mem_cons_self, if_neg (by decide)]
    rw [List.cons_append, run, first, List.nil_append,
      ih (fun d hd => plain d (List.mem_cons_of_mem c hd)), List.reverse_cons, List.append_assoc]
    rfl

/-- A run up to a character that ends it is one token. -/
theorem run_append {cs : List Char} (h : IsRun cs) {c : Char} (hc : ends c = true)
    (rest : List Char) :
    run between (cs ++ c :: rest) = .atom cs :: run between (c :: rest) := by
  obtain ⟨first, cs, rfl⟩ := List.exists_cons_of_ne_nil h.nonempty
  have plain : ∀ d ∈ cs, ends d = false := fun d hd => h.plain d (List.mem_cons_of_mem first hd)
  have begun : run between (first :: (cs ++ c :: rest)) = run (atom [first]) (cs ++ c :: rest) := by
    rw [run, feed, start_of_not_ends (h.plain first List.mem_cons_self)]
    rfl
  have ended : feed (atom (cs.reverse ++ [first])) c = after (.atom (first :: cs)) c := by
    rw [feed, hc, if_pos rfl, List.reverse_append, List.reverse_reverse]
    rfl
  rw [List.cons_append, begun, run_atom_append plain, run, ended]
  rfl

/-- A single space in front of something else. -/
theorem run_space {c : Char} (h : Token.isBlank c = false) (rest : List Char) :
    run between (' ' :: c :: rest) = .blank true :: run between (c :: rest) := by
  have ended : feed (blank true) c = after (.blank true) c := by
    rw [feed, h, if_neg (by decide)]
  show run (blank true) (c :: rest) = _
  rw [run, ended]
  rfl

end Scan

/-- A run of characters, or two with a point between them. -/
inductive IsValue : List Char → Prop where
  | run {cs : List Char} : IsRun cs → IsValue cs
  | pointed {front back : List Char} : IsRun front → IsRun back → IsValue (front ++ '.' :: back)

namespace IsRun

theorem head {cs : List Char} (h : IsRun cs) : ∃ c rest, cs = c :: rest ∧ Token.isBlank c = false := by
  obtain ⟨c, rest, rfl⟩ := List.exists_cons_of_ne_nil h.nonempty
  refine ⟨c, rest, rfl, ?_⟩
  have plain := h.plain c List.mem_cons_self
  simp only [Scan.ends, Bool.or_eq_false_iff] at plain
  exact plain.1.1.1.1.1.2

end IsRun

theorem IsValue.head {cs : List Char} (h : IsValue cs) :
    ∃ c rest, cs = c :: rest ∧ Token.isBlank c = false := by
  cases h with
  | run whole => exact whole.head
  | pointed front _ =>
    obtain ⟨c, rest, rfl, hc⟩ := front.head
    exact ⟨c, _, rfl, hc⟩

/-! ## Statements of a line -/

/-- The statements of the lines from here on. -/
def linesFrom (cs : List Char) : Option (List Statement) :=
  State.run .lineStart (Scan.run .between cs)

theorem linesFrom_nil : linesFrom [] = some [] := rfl

theorem linesFrom_newline (rest : List Char) : linesFrom ('\n' :: rest) = linesFrom rest := by
  show (State.run .lineStart (Scan.run .between rest)).map ([] ++ ·) = _
  exact Option.map_id'

theorem State.run_of_step {s next : State} {t : Token} {done : List Statement}
    (h : s.step t = some (next, done)) (ts : List Token) :
    State.run s (t :: ts) = (State.run next ts).map (done ++ ·) := by
  rw [State.run, h]
  rfl

/-- A token that completes nothing. -/
theorem State.run_cons {s next : State} {t : Token} (h : s.step t = State.goOn next)
    (ts : List Token) : State.run s (t :: ts) = State.run next ts := by
  rw [State.run_of_step h]
  exact Option.map_id'

/-- A value up to the end of its line is taken as one. -/
theorem run_value {value : List Char} (h : IsValue value) (around : List Frame) (rest : List Char) :
    State.run (.value around) (Scan.run .between (value ++ '\n' :: rest))
      = State.run (.scalar value around) (.newline :: Scan.run .between rest) := by
  have line : Scan.run .between ('\n' :: rest) = .newline :: Scan.run .between rest := rfl
  cases h with
  | run whole =>
    rw [Scan.run_append whole rfl, line]
    exact State.run_cons rfl _
  | @pointed front back first second =>
    have point : Scan.run .between ('.' :: (back ++ '\n' :: rest))
        = .dot :: Scan.run .between (back ++ '\n' :: rest) := rfl
    rw [List.append_assoc, List.cons_append, Scan.run_append first rfl, point,
      Scan.run_append second rfl, line, State.run_cons rfl, State.run_cons rfl, State.run_cons rfl,
      List.append_assoc]
    rfl

/-- The key of a line, and the sign that its value follows. -/
theorem run_key {key : List Char} (run : IsRun key) (part : State.part? (.atom key)
    = some (String.ofList key)) {c : Char} (hc : Token.isBlank c = false) (rest : List Char) :
    linesFrom (key ++ ' ' :: '=' :: ' ' :: c :: rest)
      = State.run (.value [.statement [] (String.ofList key)]) (Scan.run .between (c :: rest)) := by
  have sign : Scan.run .between ('=' :: ' ' :: c :: rest)
      = .equals :: Scan.run .between (' ' :: c :: rest) := rfl
  have begun : State.step .lineStart (.atom key)
      = State.goOn (.behindPart .assignment (String.ofList key) []) := by
    show (State.part? (.atom key)).bind _ = _
    rw [part]
    rfl
  rw [linesFrom, Scan.run_append run rfl, Scan.run_space rfl, sign, Scan.run_space hc,
    State.run_cons begun, State.run_cons rfl, State.run_cons rfl, State.run_cons rfl]
  rfl

/-- **An assignment is read as one statement.** -/
theorem linesFrom_fieldLine {key : String} (run : IsRun key.toList)
    (part : State.part? (.atom key.toList) = some key) {value : List Char} (written : IsValue value)
    {item : Item} (read : Scalar.item? value = some item) (rest : List Char) :
    linesFrom (Defaults.fieldLine key value ++ rest)
      = (linesFrom rest).map (.assign [] key item :: ·) := by
  obtain ⟨c, tail, e, hc⟩ := written.head
  have line : Defaults.fieldLine key value ++ rest
      = key.toList ++ ' ' :: '=' :: ' ' :: c :: (tail ++ '\n' :: rest) := by
    rw [Defaults.fieldLine, e]
    simp only [List.append_assoc, List.cons_append, List.nil_append]
  have behind : c :: (tail ++ '\n' :: rest) = value ++ '\n' :: rest := by rw [e]; rfl
  have name : String.ofList key.toList = key := String.ofList_toList
  have ended : State.step (.scalar value [.statement [] key]) .newline
      = some (.lineStart, [.assign [] key item]) := by
    show State.nextBehind (State.endScalar value [.statement [] key]) .newline = _
    rw [State.endScalar, read]
    rfl
  rw [line, run_key run (by rw [name]; exact part) hc, name, behind, run_value written,
    State.run_of_step ended]
  rfl

/-- **A header is read as one statement.** -/
theorem linesFrom_headerLine (kind : Kind) (rest : List Char) :
    linesFrom (Defaults.headerLine kind ++ rest)
      = (linesFrom rest).map (.openTable [] kind.tag :: ·) := by
  have run : IsRun kind.tag.toList := by
    constructor
    · cases kind <;> decide
    · apply isPlain_of_all
      cases kind <;> rfl
  have part : State.part? (.atom kind.tag.toList) = some kind.tag := by cases kind <;> rfl
  have line : Defaults.headerLine kind ++ rest
      = '[' :: (kind.tag.toList ++ ']' :: '\n' :: rest) := by
    rw [Defaults.headerLine]
    simp only [List.append_assoc, List.cons_append, List.nil_append]
  have bracket : Scan.run .between ('[' :: (kind.tag.toList ++ ']' :: '\n' :: rest))
      = .openSquare :: Scan.run .between (kind.tag.toList ++ ']' :: '\n' :: rest) := rfl
  have ending : Scan.run .between (']' :: '\n' :: rest)
      = .closeSquare :: .newline :: Scan.run .between rest := rfl
  have named : State.step .header (.atom kind.tag.toList)
      = State.goOn (.behindPart .table kind.tag []) := by
    show (State.part? (.atom kind.tag.toList)).bind _ = _
    rw [part]
    rfl
  have closed : State.step (.behindPart .table kind.tag []) .closeSquare
      = some (.lineEnd, [.openTable [] kind.tag]) := rfl
  rw [line, linesFrom, bracket, Scan.run_append run rfl, ending, State.run_cons rfl,
    State.run_cons named, State.run_of_step closed, State.run_cons rfl]
  rfl

end Trellis.Toml
