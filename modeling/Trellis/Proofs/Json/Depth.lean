import Trellis.Proofs.Json.Bytes
import Trellis.Proofs.Json.Fields
import Trellis.Proofs.Json.Level

/-!
# The bracket count of a written value

What is written for a value leaves the bracket count where it was, outside of strings and with as
many brackets open, and has it see as many more as the value is deep (`Value.run_write`).  A string
does not move it whatever characters it holds, since each is written so that the count stays inside
(`Nesting.run_quote`).  So the count of a written value is the depth of the value in either style,
and a text that is read is counted as deep as what is read from it (`nesting_of_values`).
-/

namespace Trellis.Json

namespace Nesting

/-! ## What leaves the count where it was -/

section Passed

variable {n : Nesting} (outside : n.quoted = none)

include outside

/-- Characters of a class without quotes and brackets are passed over. -/
theorem run_other {cs : List Char} {p : Char → Bool} (all : ∀ c ∈ cs, p c = true)
    (plain : marks.any p = false) : n.run cs = n := by
  induction cs with
  | nil => rfl
  | cons c cs ih =>
    rw [List.forall_mem_cons] at all
    rw [run_cons, feed_other outside all.1 plain, ih all.2]

theorem run_blanks {cs : List Char} (blank : ∀ c ∈ cs, Token.isBlank c = true) : n.run cs = n :=
  run_other outside blank (by decide)

theorem run_number (x : Number) : n.run x.write = n := by
  rcases x.written_or_null with written | null
  · exact run_other outside written.all (by decide)
  · rw [null]
    exact run_other (p := Char.isAlpha) outside (List.all_eq_true.1 rfl) (by decide)

end Passed

/-- Inside a string every character is written so that the count stays inside. -/
theorem run_escape (depth deepest : Nat) (c : Char) :
    run ⟨depth, deepest, some false⟩ (escape c) = ⟨depth, deepest, some false⟩ := by
  unfold escape
  repeat' split
  all_goals try rfl
  · next low =>
    have digit : ∀ d < 16, hexDigit d ≠ '"' ∧ hexDigit d ≠ '\\' := by decide
    obtain ⟨quote, backslash⟩ := digit (c.toNat / 16) (by omega)
    obtain ⟨quote', backslash'⟩ := digit (c.toNat % 16) (by omega)
    show run ⟨depth, deepest, some false⟩ [hexDigit (c.toNat / 16), hexDigit (c.toNat % 16)] = _
    rw [run_cons, feed_quoted quote backslash, run_cons, feed_quoted quote' backslash', run_nil]
  · next quote backslash _ _ _ _ _ _ =>
    rw [run_cons, feed_quoted quote backslash, run_nil]

theorem run_escapes (depth deepest : Nat) (cs : List Char) :
    run ⟨depth, deepest, some false⟩ (cs.flatMap escape) = ⟨depth, deepest, some false⟩ := by
  induction cs with
  | nil => rfl
  | cons c cs ih => rw [List.flatMap_cons, run_append, run_escape, ih]

/-- **A written string leaves the count where it was**, whatever it holds. -/
theorem run_quote {n : Nesting} (outside : n.quoted = none) (s : String) : n.run (quote s) = n := by
  obtain ⟨depth, deepest, quoted⟩ := n
  obtain rfl : quoted = none := outside
  show run ⟨depth, deepest, some false⟩ (s.toList.flatMap escape ++ ['"']) = _
  rw [run_append, run_escapes]
  rfl

/-! ## What has the count see more -/

/-- As many levels more than are open have been seen. -/
def deepen (n : Nesting) (levels : Nat) : Nesting :=
  { n with deepest := max n.deepest (n.depth + levels) }

/-- Outside of strings, where as many brackets have been seen as are open. -/
structure Outside (n : Nesting) : Prop where
  quoted : n.quoted = none
  seen : n.depth ≤ n.deepest

variable {n : Nesting}

theorem Outside.deepen (h : n.Outside) (levels : Nat) : (n.deepen levels).Outside :=
  ⟨h.quoted, Nat.le_trans h.seen (Nat.le_max_left _ _)⟩

theorem Outside.deepen_zero (h : n.Outside) : n.deepen 0 = n := by
  rw [Nesting.deepen, Nat.add_zero, Nat.max_eq_left h.seen]

theorem deepen_deepen (n : Nesting) (levels more : Nat) :
    (n.deepen levels).deepen more = n.deepen (max levels more) := by
  simp only [deepen, Nesting.mk.injEq, and_true, true_and]
  omega

/-- One bracket more is open. -/
def opened (n : Nesting) : Nesting := ⟨n.depth + 1, max n.deepest (n.depth + 1), n.quoted⟩

theorem Outside.opened (h : n.Outside) : n.opened.Outside := ⟨h.quoted, Nat.le_max_right _ _⟩

theorem Outside.feed_open (h : n.Outside) : n.feed '[' = n.opened ∧ n.feed '\x7b' = n.opened := by
  obtain ⟨depth, deepest, quoted⟩ := n
  obtain rfl : quoted = none := h.quoted
  exact ⟨rfl, rfl⟩

/-- Behind the closing bracket the levels inside count one more. -/
theorem Outside.feed_close (h : n.Outside) (levels : Nat) :
    (n.opened.deepen levels).feed ']' = n.deepen (levels + 1)
    ∧ (n.opened.deepen levels).feed '\x7d' = n.deepen (levels + 1) := by
  obtain ⟨depth, deepest, quoted⟩ := n
  obtain rfl : quoted = none := h.quoted
  have seen : max (max deepest (depth + 1)) (depth + 1 + levels)
      = max deepest (depth + (levels + 1)) := by omega
  simp [Nesting.opened, Nesting.deepen, feed, seen]

theorem Outside.feed_comma (h : n.Outside) : n.feed ',' = n :=
  feed_other (p := (· = ',')) h.quoted (by decide) (by decide)

theorem Outside.feed_colon (h : n.Outside) : n.feed ':' = n :=
  feed_other (p := (· = ':')) h.quoted (by decide) (by decide)

end Nesting

/-! ## Values -/

namespace Value

section Write

variable {style : Style} (blank : style.Blank)

include blank

mutual

/-- **A written value is seen as deep as it is**, at any depth. -/
theorem run_write (level : Nat) : (v : Value) → {n : Nesting} → n.Outside →
    n.run (v.write style level) = n.deepen v.depth
  | null, _, h | bool true, _, h | bool false, _, h => by
    rw [write, depth, h.deepen_zero]
    exact Nesting.run_other (p := Char.isAlpha) h.quoted (List.all_eq_true.1 rfl) (by decide)
    all_goals nofun
  | number x, _, h => by
    rw [write, depth, h.deepen_zero]
    exact Nesting.run_number h.quoted x
    all_goals nofun
  | string s, _, h => by
    rw [write, depth, h.deepen_zero]
    exact Nesting.run_quote h.quoted s
    all_goals nofun
  | array [], n, h => by
    rw [write, depth, depthItems, Nesting.run_cons, h.feed_open.1, Nesting.run_cons,
      ← h.opened.deepen_zero, (h.feed_close 0).1]
    rfl
  | array (v :: vs), n, h => by
    have first := run_write (level + 1) v h.opened
    have others := run_writeItems (level + 1) vs (h.opened.deepen v.depth)
    have inside := h.opened.deepen (max v.depth (depthItems vs))
    rw [write, depth, depthItems, Nesting.run_cons, h.feed_open.1]
    simp only [Nesting.run_append]
    rw [Nesting.run_blanks h.opened.quoted (blank.line _), first, others, Nesting.deepen_deepen,
      Nesting.run_blanks inside.quoted (blank.line _), Nesting.run_cons, (h.feed_close _).1]
    rfl
  | object [], n, h => by
    rw [write, depth, depthMembers, Nesting.run_cons, h.feed_open.2, Nesting.run_cons,
      ← h.opened.deepen_zero, (h.feed_close 0).2]
    rfl
  | object ((k, v) :: ms), n, h => by
    have first := run_write (level + 1) v h.opened
    have others := run_writeMembers (level + 1) ms (h.opened.deepen v.depth)
    have inside := h.opened.deepen (max v.depth (depthMembers ms))
    rw [write, depth, depthMembers, Nesting.run_cons, h.feed_open.2]
    simp only [Nesting.run_append, Nesting.run_cons]
    rw [Nesting.run_blanks h.opened.quoted (blank.line _), Nesting.run_quote h.opened.quoted,
      h.opened.feed_colon, Nesting.run_blanks h.opened.quoted blank.afterColon, first, others,
      Nesting.deepen_deepen, Nesting.run_blanks inside.quoted (blank.line _), (h.feed_close _).2]
    rfl

theorem run_writeItems (level : Nat) : (vs : List Value) → {n : Nesting} → n.Outside →
    n.run (writeItems style level vs) = n.deepen (depthItems vs)
  | [], _, h => by rw [writeItems, depthItems, h.deepen_zero]; rfl
  | v :: vs, n, h => by
    have first := run_write level v h
    have others := run_writeItems level vs (h.deepen v.depth)
    rw [writeItems, depthItems, Nesting.run_cons, h.feed_comma]
    simp only [Nesting.run_append]
    rw [Nesting.run_blanks h.quoted (blank.line _), first, others, Nesting.deepen_deepen]

theorem run_writeMembers (level : Nat) : (ms : List (String × Value)) → {n : Nesting} → n.Outside →
    n.run (writeMembers style level ms) = n.deepen (depthMembers ms)
  | [], _, h => by rw [writeMembers, depthMembers, h.deepen_zero]; rfl
  | (k, v) :: ms, n, h => by
    have first := run_write level v h
    have others := run_writeMembers level ms (h.deepen v.depth)
    rw [writeMembers, depthMembers, Nesting.run_cons, h.feed_comma]
    simp only [Nesting.run_append, Nesting.run_cons]
    rw [Nesting.run_blanks h.quoted (blank.line _), Nesting.run_quote h.quoted, h.feed_colon,
      Nesting.run_blanks h.quoted blank.afterColon, first, others, Nesting.deepen_deepen]

end

end Write

theorem nesting_write {style : Style} (blank : style.Blank) (v : Value) :
    nesting (v.write style 0) = v.depth := by
  have outside : Nesting.start.Outside := ⟨rfl, Nat.le_refl 0⟩
  rw [nesting, run_write blank 0 v outside]
  show max 0 (0 + v.depth) = v.depth
  omega

/-! ## Repeated keys -/

mutual

/-- The value without the members that a later one under the same key stands for. -/
def settled : Value → Value
  | array vs => array (settledItems vs)
  | object ms => object (settledMembers ms)
  | v => v

def settledItems : List Value → List Value
  | [] => []
  | v :: vs => settled v :: settledItems vs

def settledMembers : List (String × Value) → List (String × Value)
  | [] => []
  | (k, v) :: ms =>
    if k ∈ ms.map Prod.fst then settledMembers ms else (k, settled v) :: settledMembers ms

end

theorem keys_settledMembers_subset (ms : List (String × Value)) :
    (settledMembers ms).map Prod.fst ⊆ ms.map Prod.fst := by
  induction ms with
  | nil => exact fun _ h => h
  | cons m ms ih =>
    obtain ⟨k, v⟩ := m
    rw [settledMembers]
    split
    · exact List.subset_cons_of_subset _ ih
    · exact List.cons_subset_cons k ih

/-- No key of a settled object is repeated. -/
theorem nodup_keys_settledMembers (ms : List (String × Value)) :
    ((settledMembers ms).map Prod.fst).Nodup := by
  induction ms with
  | nil => exact List.nodup_nil
  | cons m ms ih =>
    obtain ⟨k, v⟩ := m
    rw [settledMembers]
    split
    · exact ih
    · next single =>
      exact List.nodup_cons.2 ⟨fun again => single (keys_settledMembers_subset ms again), ih⟩

theorem isSome_lookup_of_mem {ms : List (String × Value)} {key : String}
    (h : key ∈ ms.map Prod.fst) : (lookup ms key).isSome = true := by
  induction ms with
  | nil => cases h
  | cons m ms ih =>
    obtain ⟨k, v⟩ := m
    rw [lookup, Option.isSome_or, Bool.or_eq_true]
    rcases List.mem_cons.1 h with rfl | later
    · exact .inr (by rw [if_pos rfl]; rfl)
    · exact .inl (ih later)

/-- Under each key stands what stood there. -/
theorem lookup_settledMembers (ms : List (String × Value)) (key : String) :
    lookup (settledMembers ms) key = (lookup ms key).map settled := by
  induction ms with
  | nil => rfl
  | cons m ms ih =>
    obtain ⟨k, v⟩ := m
    rw [settledMembers, lookup]
    split
    · next later =>
      rw [ih]
      by_cases here : k = key
      · obtain ⟨w, found⟩ := Option.isSome_iff_exists.1 (isSome_lookup_of_mem (here ▸ later))
        rw [found]
        rfl
      · rw [if_neg here, Option.or_none]
    · rw [lookup, ih]
      split
      · cases lookup ms key <;> rfl
      · cases lookup ms key <;> rfl

mutual

theorem depth_settled_le : (v : Value) → v.settled.depth ≤ v.depth
  | null | bool _ | number _ | string _ => Nat.le_refl _
  | array vs => by
    rw [settled, depth, depth]
    exact Nat.succ_le_succ (depthItems_settledItems_le vs)
  | object ms => by
    rw [settled, depth, depth]
    exact Nat.succ_le_succ (depthMembers_settledMembers_le ms)

theorem depthItems_settledItems_le : (vs : List Value) →
    depthItems (settledItems vs) ≤ depthItems vs
  | [] => Nat.le_refl _
  | v :: vs => by
    have first := depth_settled_le v
    have others := depthItems_settledItems_le vs
    rw [settledItems, depthItems, depthItems]
    omega

theorem depthMembers_settledMembers_le : (ms : List (String × Value)) →
    depthMembers (settledMembers ms) ≤ depthMembers ms
  | [] => Nat.le_refl _
  | (k, v) :: ms => by
    have first := depth_settled_le v
    have others := depthMembers_settledMembers_le ms
    rw [settledMembers, depthMembers]
    split
    · omega
    · rw [depthMembers]
      omega

end

/-- **The bracket count of a value.**  What is written for a value in either style is counted as
deep as the value is, character by character or byte by byte.  A text that is read is counted as
deep as what it holds, which is no less deep than what is left when of repeated keys only the last
one counts. -/
theorem nesting_of_values :
    (∀ v : Value, nesting v.compact = v.depth ∧ nesting v.pretty = v.depth)
    ∧ (∀ cs, (Nesting.start.runBytes (cs.flatMap String.utf8EncodeChar)).deepest = nesting cs)
    ∧ ∀ limit cs v, readWithin? limit cs = some v →
      v.depth = nesting cs ∧ v.settled.depth ≤ nesting cs := by
  refine ⟨fun v => ⟨nesting_write Style.blank_compact v, nesting_write Style.blank_pretty v⟩,
    fun cs => congrArg Nesting.deepest (Nesting.runBytes_utf8Encode _ cs), ?_⟩
  intro limit cs v h
  have counted : v.depth = nesting cs := by
    unfold readWithin? at h
    split at h
    · next d syntaxTree => rw [depth_of_ofDoc? d h, Doc.nesting_of_read syntaxTree]
    · cases h
  exact ⟨counted, counted ▸ v.depth_settled_le⟩

/-- An object with the same key twice, which is written in two ways, and a bracket in a string. -/
def repeated : List Char :=
  "\x7b\"a\":[[\"]\\\"[\",0.5]],\"\\u0061\":\"é\"\x7d".toList

/-- Three levels are counted, of which the later member leaves one. -/
theorem nesting_of_values_repeated :
    ∃ v, read? repeated = some v ∧ v.depth = nesting repeated ∧ nesting repeated = 3
      ∧ v.settled.depth = 1 ∧ v.settled.depth ≤ nesting repeated := by
  have settled : (read? repeated).map (fun v => v.settled.depth) = some 1 := by decide +kernel
  obtain ⟨v, read, one⟩ := Option.map_eq_some_iff.1 settled
  obtain ⟨-, -, counted⟩ := nesting_of_values
  obtain ⟨whole, left⟩ := counted _ _ _ read
  exact ⟨v, read, whole, by decide +kernel, one, left⟩

end Value

end Trellis.Json
