import Trellis.Proofs.Json.Scan
import Trellis.Proofs.Json.Syntax

/-!
# Written values are read back

A value is written as the tokens of its syntax tree with blanks between them (`scan_write`), the
reader takes these tokens back to the tree, and the tree stands for the value.  Strings, keys and
whole numbers are read back whatever they hold; for doubles it is a condition on the value, that
each of its numbers reads back.
-/

namespace Trellis.Json

open Scan

/-! ## The syntax tree of a value -/

/-- The syntax tree of the text of a number; what is not finite is written as null. -/
def Number.toDoc (n : Number) : Doc :=
  match Numeral.ofChars? n.write with
  | some m => .number m
  | none => .null

theorem Number.ReadsBack.numeral {n : Number} (h : n.ReadsBack) :
    ∃ m, Numeral.ofChars? n.write = some m ∧ ofNumeral? m = some n :=
  Option.bind_eq_some_iff.1 h

/-- A number that reads back is scanned as one numeral. -/
theorem Number.run_write {n : Number} (h : n.ReadsBack) {rest : List Char} (hr : Parted rest) :
    run between (n.write ++ rest) = n.toDoc.tokens ++ run between rest := by
  obtain ⟨m, hm, _⟩ := h.numeral
  have written : Numeral.Written n.write := by
    rcases n.written_or_null with written | null
    · exact written
    · rw [null] at hm
      cases hm
  rw [run_written written hr, toDoc, hm, Token.ofNumeral, hm]
  rfl

namespace Value

mutual

/-- The syntax tree of the text of a value. -/
def toDoc : Value → Doc
  | null => .null
  | bool b => .bool b
  | number n => n.toDoc
  | string s => .string (some s)
  | array vs => .array (toDocs vs)
  | object ms => .object (toMembers ms)

def toDocs : List Value → List Doc
  | [] => []
  | v :: vs => toDoc v :: toDocs vs

def toMembers : List (String × Value) → List (Key × Doc)
  | [] => []
  | (k, v) :: ms => (some k, toDoc v) :: toMembers ms

end

mutual

/-- The numbers in a value. -/
def numbers : Value → List Number
  | number n => [n]
  | array vs => itemNumbers vs
  | object ms => memberNumbers ms
  | _ => []

def itemNumbers : List Value → List Number
  | [] => []
  | v :: vs => numbers v ++ itemNumbers vs

def memberNumbers : List (String × Value) → List Number
  | [] => []
  | (_, v) :: ms => numbers v ++ memberNumbers ms

end

theorem mem_itemNumbers {n : Number} {vs : List Value} :
    n ∈ itemNumbers vs ↔ ∃ v ∈ vs, n ∈ v.numbers := by
  induction vs with
  | nil => simp [itemNumbers]
  | cons v vs ih => simp [itemNumbers, ih]

/-- Every number of a value reads back. -/
def ReadsBack (v : Value) : Prop := ∀ n ∈ v.numbers, n.ReadsBack

theorem readsBack_number {n : Number} : (number n).ReadsBack ↔ n.ReadsBack := by
  simp [ReadsBack, numbers]

theorem readsBack_items_cons {v : Value} {vs : List Value} :
    (∀ n ∈ itemNumbers (v :: vs), n.ReadsBack)
      ↔ v.ReadsBack ∧ ∀ n ∈ itemNumbers vs, n.ReadsBack := by
  rw [itemNumbers, List.forall_mem_append]
  rfl

theorem readsBack_members_cons (k : String) {v : Value} {ms : List (String × Value)} :
    (∀ n ∈ memberNumbers ((k, v) :: ms), n.ReadsBack)
      ↔ v.ReadsBack ∧ ∀ n ∈ memberNumbers ms, n.ReadsBack := by
  rw [memberNumbers, List.forall_mem_append]
  rfl

end Value

/-! ## Scanning what is written -/

/-- A style puts nothing but blanks between tokens. -/
structure Style.Blank (style : Style) : Prop where
  line : ∀ depth, ∀ c ∈ style.line depth, Token.isBlank c = true
  afterColon : ∀ c ∈ style.afterColon, Token.isBlank c = true

theorem Style.blank_compact : Style.compact.Blank := ⟨by simp [compact], by simp [compact]⟩

theorem Style.blank_pretty : Style.pretty.Blank := by
  refine ⟨fun depth c hc => ?_, by simp [pretty, Token.isBlank]⟩
  rcases List.mem_cons.1 hc with rfl | hc
  · decide
  · rw [List.eq_of_mem_replicate hc]
    decide

namespace Value

/-- Behind an item, or between two of them, no word or numeral goes on. -/
theorem parted_items (style : Style) (depth : Nat) (vs : List Value) {rest : List Char}
    (hr : Parted rest) : Parted (writeItems style depth vs ++ rest) := by
  cases vs with
  | nil => rwa [writeItems]
  | cons v vs => rw [writeItems]; exact parted_cons (by decide) (by decide) _

theorem parted_members (style : Style) (depth : Nat) (ms : List (String × Value))
    {rest : List Char} (hr : Parted rest) : Parted (writeMembers style depth ms ++ rest) := by
  match ms with
  | [] => rwa [writeMembers]
  | (k, v) :: ms => rw [writeMembers]; exact parted_cons (by decide) (by decide) _

section Scan

variable {style : Style} (blank : style.Blank)

include blank

theorem parted_close (depth : Nat) (close : Char) (ha : close.isAlpha = false)
    (hn : Token.isNumeral close = false) (rest : List Char) :
    Parted (style.line depth ++ close :: rest) :=
  parted_blanks (blank.line depth) (parted_cons ha hn rest)

mutual

/-- **A value is written as the tokens of its syntax tree.** -/
theorem scan_write (depth : Nat) {rest : List Char} (hr : Parted rest) : (v : Value) →
    v.ReadsBack → run between (v.write style depth ++ rest) = v.toDoc.tokens ++ run between rest
  | null, _ => by rw [write, toDoc, Doc.tokens]; exact run_null hr
  | bool true, _ => by rw [write, toDoc, Doc.tokens]; exact run_true hr
  | bool false, _ => by rw [write, toDoc, Doc.tokens]; exact run_false hr
  | number n, h => by
    rw [write, toDoc]
    exact Number.run_write (readsBack_number.1 h) hr
  | string s, _ => by rw [write, toDoc, Doc.tokens]; exact run_quote s rest
  | array [], _ => by rw [write, toDoc, toDocs, Doc.tokens]; rfl
  | array (v :: vs), h => by
    obtain ⟨hv, hvs⟩ := readsBack_items_cons.1 h
    have close := parted_close blank depth ']' (by decide) (by decide) rest
    have first := scan_write (depth + 1) (parted_items style (depth + 1) vs close) v hv
    have others := scan_items (depth + 1) close vs hvs
    rw [write, toDoc, toDocs, Doc.tokens]
    simp only [List.cons_append, List.append_assoc, List.nil_append]
    rw [run_symbol (t := .openArray) rfl, run_blanks (blank.line _), first, others,
      run_blanks (blank.line _), run_symbol (t := .closeArray) rfl]
  | object [], _ => by rw [write, toDoc, toMembers, Doc.tokens]; rfl
  | object ((k, v) :: ms), h => by
    obtain ⟨hv, hms⟩ := (readsBack_members_cons k).1 h
    have close := parted_close blank depth '\x7d' (by decide) (by decide) rest
    have first := scan_write (depth + 1) (parted_members style (depth + 1) ms close) v hv
    have others := scan_members (depth + 1) close ms hms
    rw [write, toDoc, toMembers, Doc.tokens]
    simp only [List.cons_append, List.append_assoc, List.nil_append]
    rw [run_symbol (t := .openObject) rfl, run_blanks (blank.line _), run_quote,
      run_symbol (t := .colon) rfl, run_blanks blank.afterColon, first, others,
      run_blanks (blank.line _), run_symbol (t := .closeObject) rfl]

theorem scan_items (depth : Nat) {rest : List Char} (hr : Parted rest) : (vs : List Value) →
    (∀ n ∈ itemNumbers vs, n.ReadsBack) →
    run between (writeItems style depth vs ++ rest)
      = Doc.itemTokens (toDocs vs) ++ run between rest
  | [], _ => by rw [writeItems, toDocs, Doc.itemTokens]; rfl
  | v :: vs, h => by
    obtain ⟨hv, hvs⟩ := readsBack_items_cons.1 h
    have first := scan_write depth (parted_items style depth vs hr) v hv
    have others := scan_items depth hr vs hvs
    rw [writeItems, toDocs, Doc.itemTokens]
    simp only [List.cons_append, List.append_assoc]
    rw [run_symbol (t := .comma) rfl, run_blanks (blank.line _), first, others]

theorem scan_members (depth : Nat) {rest : List Char} (hr : Parted rest) :
    (ms : List (String × Value)) → (∀ n ∈ memberNumbers ms, n.ReadsBack) →
    run between (writeMembers style depth ms ++ rest)
      = Doc.memberTokens (toMembers ms) ++ run between rest
  | [], _ => by rw [writeMembers, toMembers, Doc.memberTokens]; rfl
  | (k, v) :: ms, h => by
    obtain ⟨hv, hms⟩ := (readsBack_members_cons k).1 h
    have first := scan_write depth (parted_members style depth ms hr) v hv
    have others := scan_members depth hr ms hms
    rw [writeMembers, toMembers, Doc.memberTokens]
    simp only [List.cons_append, List.append_assoc]
    rw [run_symbol (t := .comma) rfl, run_blanks (blank.line _), run_quote,
      run_symbol (t := .colon) rfl, run_blanks blank.afterColon, first, others]

end

end Scan

/-! ## The value of its syntax tree -/

mutual

theorem ofDoc?_toDoc : (v : Value) → v.ReadsBack → ofDoc? v.toDoc = some v
  | null, _ | bool _, _ | string _, _ => rfl
  | number n, h => by
    obtain ⟨m, hm, value⟩ := (readsBack_number.1 h).numeral
    rw [toDoc, Number.toDoc, hm, ofDoc?, value, Option.map_some]
  | array vs, h => by
    rw [toDoc, ofDoc?, ofItems?_toDocs vs h, Option.map_some]
  | object ms, h => by
    rw [toDoc, ofDoc?, ofMembers?_toMembers ms h, Option.map_some]

theorem ofItems?_toDocs : (vs : List Value) → (∀ n ∈ itemNumbers vs, n.ReadsBack) →
    ofItems? (toDocs vs) = some vs
  | [], _ => rfl
  | v :: vs, h => by
    obtain ⟨hv, hvs⟩ := readsBack_items_cons.1 h
    rw [toDocs, ofItems?, ofDoc?_toDoc v hv, ofItems?_toDocs vs hvs]
    rfl

theorem ofMembers?_toMembers : (ms : List (String × Value)) →
    (∀ n ∈ memberNumbers ms, n.ReadsBack) → ofMembers? (toMembers ms) = some ms
  | [], _ => rfl
  | (k, v) :: ms, h => by
    obtain ⟨hv, hms⟩ := (readsBack_members_cons k).1 h
    rw [toMembers, ofMembers?, ofDoc?_toDoc v hv, ofMembers?_toMembers ms hms]
    rfl

end

mutual

theorem depth_toDoc : (v : Value) → v.toDoc.depth = v.depth
  | null | bool _ | string _ => rfl
  | number n => by rw [toDoc, Number.toDoc, depth.eq_def]; split <;> rfl
  | array vs => by rw [toDoc, Doc.depth, depth, depthItems_toDocs vs]
  | object ms => by rw [toDoc, Doc.depth, depth, depthMembers_toMembers ms]

theorem depthItems_toDocs : (vs : List Value) → Doc.depthItems (toDocs vs) = depthItems vs
  | [] => rfl
  | v :: vs => by rw [toDocs, Doc.depthItems, depthItems, depth_toDoc v, depthItems_toDocs vs]

theorem depthMembers_toMembers : (ms : List (String × Value)) →
    Doc.depthMembers (toMembers ms) = depthMembers ms
  | [] => rfl
  | (k, v) :: ms => by
    rw [toMembers, Doc.depthMembers, depthMembers, depth_toDoc v, depthMembers_toMembers ms]

end

/-- A written value is read as its syntax tree, in either style and with blanks behind it, when it
is nested within the limit. -/
theorem read_write {limit : Option Nat} {style : Style} (blank : style.Blank) {v : Value}
    (h : v.ReadsBack) (room : Doc.Room limit 0 v.depth) {behind : List Char}
    (hb : ∀ c ∈ behind, Token.isBlank c = true) :
    Doc.read limit (v.write style 0 ++ behind) = .ok v.toDoc := by
  have parted : Parted behind := by simpa using parted_blanks hb parted_nil
  have nothing : run between behind = [] := by simpa [run_nil, finish] using run_blanks hb []
  have scanned := scan_write blank 0 parted v h
  rw [nothing, List.append_nil] at scanned
  rw [← depth_toDoc] at room
  rw [Doc.read, Token.scan, scanned, Doc.steps_tokens_finish room]

/-- **Written values are read back**, in either style and with blanks behind them, when they are
nested within the limit. -/
theorem readWithin?_write {limit : Option Nat} {style : Style} (blank : style.Blank) {v : Value}
    (h : v.ReadsBack) (room : Doc.Room limit 0 v.depth) {behind : List Char}
    (hb : ∀ c ∈ behind, Token.isBlank c = true) :
    readWithin? limit (v.write style 0 ++ behind) = some v := by
  rw [readWithin?, read_write blank h room hb]
  exact ofDoc?_toDoc v h

/-- However deeply it is nested, a value is read back from its text without blanks. -/
theorem read_compact {v : Value} (h : v.ReadsBack) : Doc.read none v.compact = .ok v.toDoc := by
  have whole : Doc.read none (v.compact ++ []) = .ok v.toDoc :=
    read_write Style.blank_compact h (Doc.room_none 0 v.depth) (by simp)
  rwa [List.append_nil] at whole

theorem read?_compact {v : Value} (h : v.ReadsBack) (shallow : v.depth ≤ maxDepth) :
    read? v.compact = some v := by
  have whole : read? (v.compact ++ []) = some v :=
    readWithin?_write Style.blank_compact h (Doc.room_some (by omega)) (by simp)
  rwa [List.append_nil] at whole

theorem read?_pretty {v : Value} (h : v.ReadsBack) (shallow : v.depth ≤ maxDepth)
    {behind : List Char} (hb : ∀ c ∈ behind, Token.isBlank c = true) :
    read? (v.pretty ++ behind) = some v :=
  readWithin?_write Style.blank_pretty h (Doc.room_some (by omega)) hb

end Value

end Trellis.Json
