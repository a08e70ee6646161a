import Trellis.Json.Value
import Trellis.Proofs.Json.Nesting
import Trellis.Proofs.Json.Syntax

/-!
# The bracket count and the reader

A token is counted as the reader takes it (`Doc.counts_step`): what is open is the level of the
reader, and the most that was open is the reach of what it has read so far.  Where a text is read to
its end, the count is therefore the depth of its syntax tree (`Doc.nesting_of_read`), and the depth
of its value, where it has one (`Value.depth_of_ofDoc?`).
-/

namespace Trellis.Json

/-! ## The levels of the reader -/

namespace Doc

/-- How deeply the values read so far in a container are nested. -/
def Frame.depth : Frame → Nat
  | .array items => depthItems items
  | .object members _ => depthMembers members

/-- The deepest level that has been opened, the containers from the innermost to the outermost. -/
def reachOf : List Frame → Nat
  | [] => 0
  | f :: around => max (around.length + 1 + f.depth) (reachOf around)

/-- The deepest level that has been opened so far. -/
def State.reach : State → Nat
  | value around => reachOf around
  | firstItem around => max (around.length + 1) (reachOf around)
  | firstKey around => max (around.length + 1) (reachOf around)
  | key members around => max (around.length + 1 + depthMembers members) (reachOf around)
  | colon members _ around => max (around.length + 1 + depthMembers members) (reachOf around)
  | afterItem items around => max (around.length + 1 + depthItems items) (reachOf around)
  | afterMember members around => max (around.length + 1 + depthMembers members) (reachOf around)
  | done d => d.depth

theorem length_le_reachOf (around : List Frame) : around.length ≤ reachOf around := by
  cases around with
  | nil => exact Nat.zero_le _
  | cons f around => rw [List.length_cons, reachOf]; omega

theorem level_deliver (d : Doc) (around : List Frame) :
    (State.deliver d around).level = around.length := by
  rcases around with _ | ⟨_ | _, around⟩ <;> rfl

theorem reach_deliver (d : Doc) (around : List Frame) :
    (State.deliver d around).reach = max (around.length + d.depth) (reachOf around) := by
  rcases around with _ | ⟨items | ⟨members, k⟩, around⟩
  · simp [State.deliver, State.reach, reachOf]
  · simp only [State.deliver, State.reach, reachOf, Frame.depth, depthItems, List.length_cons]
    omega
  · simp only [State.deliver, State.reach, reachOf, Frame.depth, depthMembers, List.length_cons]
    omega

theorem depthItems_append (ds es : List Doc) :
    depthItems (ds ++ es) = max (depthItems ds) (depthItems es) := by
  induction ds with
  | nil => simp [depthItems]
  | cons d ds ih => rw [List.cons_append, depthItems, depthItems, ih, Nat.max_assoc]

theorem depthItems_reverse (ds : List Doc) : depthItems ds.reverse = depthItems ds := by
  induction ds with
  | nil => rfl
  | cons d ds ih =>
    rw [List.reverse_cons, depthItems_append, ih, depthItems, depthItems, depthItems]
    omega

theorem depthMembers_append (ms ns : List (Key × Doc)) :
    depthMembers (ms ++ ns) = max (depthMembers ms) (depthMembers ns) := by
  induction ms with
  | nil => simp [depthMembers]
  | cons m ms ih => rw [List.cons_append, depthMembers, depthMembers, ih, Nat.max_assoc]

theorem depthMembers_reverse (ms : List (Key × Doc)) :
    depthMembers ms.reverse = depthMembers ms := by
  induction ms with
  | nil => rfl
  | cons m ms ih =>
    rw [List.reverse_cons, depthMembers_append, ih, depthMembers, depthMembers, depthMembers]
    omega

/-- The count of the tokens so far and the state of the reader behind them. -/
structure Counts (n : Nesting) (s : State) : Prop where
  level : n.depth = s.level
  reach : n.deepest = s.reach

section Steps

variable {limit : Option Nat} {n : Nesting} {s s' : State} {around : List Frame}

theorem counts_deliver {d : Doc} (level : n.depth = around.length)
    (reach : n.deepest = max (around.length + d.depth) (reachOf around)) :
    Counts n (.deliver d around) :=
  ⟨level.trans (level_deliver d around).symm, reach.trans (reach_deliver d around).symm⟩

/-- A token that begins a value opens at most one level. -/
theorem counts_begin {t : Token} (counts : Counts n (.value around))
    (h : begin limit around t = .ok s) : Counts (n.token t) s := by
  obtain ⟨level, reach⟩ := counts
  have low := length_le_reachOf around
  have scalar : ∀ d : Doc, d.depth = 0 → Counts n (.deliver d around) := fun d flat =>
    counts_deliver level (by rw [reach, flat, State.reach]; omega)
  have opened : max n.deepest (n.depth + 1) = max (around.length + 1) (reachOf around) := by
    rw [level, reach, State.level, State.reach, Nat.max_comm]
  unfold begin at h
  split at h
  · cases h; exact scalar _ rfl
  · cases h; exact scalar _ rfl
  · cases h; exact scalar _ rfl
  · cases h; exact scalar _ rfl
  · split at h
    · cases h; exact ⟨congrArg (· + 1) level, opened⟩
    · cases h
  · split at h
    · cases h; exact ⟨congrArg (· + 1) level, opened⟩
    · cases h
  · cases h

/-- A closing bracket delivers the container that it closes. -/
theorem counts_close {d : Doc} (level : n.depth = around.length + 1)
    (reach : n.deepest = max (around.length + d.depth) (reachOf around)) :
    Counts { n with depth := n.depth - 1 } (.deliver d around) :=
  counts_deliver (by rw [level, Nat.add_sub_cancel]) reach

/-- **A token is counted as the reader takes it.** -/
theorem counts_step {t : Token} (counts : Counts n s) (h : step limit s t = .ok s') :
    Counts (n.token t) s' := by
  obtain ⟨level, reach⟩ := counts
  unfold step at h
  split at h
  · exact counts_begin ⟨level, reach⟩ h
  · next around =>
    cases h
    exact counts_close level reach
  · next around _ =>
    have inside : Counts n (.value (.array [] :: around)) := ⟨level, reach⟩
    exact counts_begin inside h
  · next around =>
    cases h
    exact counts_close level reach
  · cases h
    exact ⟨level, reach⟩
  · cases h
    exact ⟨level, reach⟩
  · cases h
    exact ⟨level, reach⟩
  · cases h
    exact ⟨level, reach⟩
  · next items around =>
    cases h
    exact counts_close level (by rw [reach, State.reach, depth, depthItems_reverse]; omega)
  · cases h
    exact ⟨level, reach⟩
  · next members around =>
    cases h
    exact counts_close level (by rw [reach, State.reach, depth, depthMembers_reverse]; omega)
  · cases h

theorem steps_cons_eq_ok {t : Token} {ts : List Token} (h : steps limit s (t :: ts) = .ok s') :
    ∃ middle, step limit s t = .ok middle ∧ steps limit middle ts = .ok s' := by
  rw [steps_cons] at h
  cases hs : step limit s t with
  | error e =>
    rw [hs] at h
    cases h
  | ok middle =>
    rw [hs] at h
    exact ⟨middle, rfl, h⟩

theorem counts_steps {ts : List Token} (counts : Counts n s) (h : steps limit s ts = .ok s') :
    Counts (n.tokens ts) s' := by
  induction ts generalizing n s with
  | nil =>
    cases h
    exact counts
  | cons t ts ih =>
    obtain ⟨middle, first, rest⟩ := steps_cons_eq_ok h
    exact ih (counts_step counts first) rest

theorem step_illegal : step limit s .illegal = .error .misplaced := by
  cases s <;> rfl

/-- What is read has no illegal token. -/
theorem illegal_not_mem_of_steps {ts : List Token} (h : steps limit s ts = .ok s') :
    Token.illegal ∉ ts := by
  induction ts generalizing s with
  | nil => exact List.not_mem_nil
  | cons t ts ih =>
    obtain ⟨middle, first, rest⟩ := steps_cons_eq_ok h
    rw [List.mem_cons, not_or]
    refine ⟨?_, ih rest⟩
    rintro rfl
    rw [step_illegal] at first
    cases first

end Steps

/-- **The nesting of a text that is read is the depth of its syntax tree.** -/
theorem nesting_of_read {limit : Option Nat} {cs : List Char} {d : Doc}
    (h : read limit cs = .ok d) : nesting cs = d.depth := by
  rw [read] at h
  cases hs : steps limit (.value []) (Token.scan cs) with
  | error e =>
    rw [hs] at h
    cases h
  | ok s =>
    rw [hs] at h
    have counts := counts_steps (n := .start) ⟨rfl, rfl⟩ hs
    rw [Nesting.nesting_eq_tokens (illegal_not_mem_of_steps hs), counts.reach]
    cases s with
    | done e =>
      cases h
      rfl
    | _ => cases h

theorem depthMembers_le {levels : Nat} {ms : List (Key × Doc)}
    (h : ∀ m ∈ ms, m.2.depth ≤ levels) : depthMembers ms ≤ levels := by
  induction ms with
  | nil => exact Nat.zero_le _
  | cons m ms ih => exact Nat.max_le.2 ⟨h m (by simp), ih fun w hw => h w (by simp [hw])⟩

theorem depth_le_depthItems {ds : List Doc} {d : Doc} (h : d ∈ ds) : d.depth ≤ depthItems ds := by
  induction ds with
  | nil => cases h
  | cons e ds ih =>
    rw [depthItems]
    rcases List.mem_cons.1 h with rfl | later
    · omega
    · have := ih later
      omega

theorem depth_le_depthMembers {ms : List (Key × Doc)} {m : Key × Doc} (h : m ∈ ms) :
    m.2.depth ≤ depthMembers ms := by
  induction ms with
  | nil => cases h
  | cons l ms ih =>
    rw [depthMembers]
    rcases List.mem_cons.1 h with rfl | later
    · omega
    · have := ih later
      omega

end Doc

/-! ## Values -/

namespace Value

mutual

/-- A value is as deep as the syntax tree that it is read from. -/
theorem depth_of_ofDoc? : (d : Doc) → {v : Value} → ofDoc? d = some v → v.depth = d.depth
  | .null, _, h | .bool _, _, h => by cases h; rfl
  | .number n, _, h => by
    obtain ⟨m, _, rfl⟩ := Option.map_eq_some_iff.1 h
    rfl
  | .string s, _, h => by
    obtain ⟨text, _, rfl⟩ := Option.map_eq_some_iff.1 h
    rfl
  | .array ds, _, h => by
    rw [ofDoc?] at h
    obtain ⟨vs, items, rfl⟩ := Option.map_eq_some_iff.1 h
    rw [depth, Doc.depth, depth_of_ofItems? ds items]
  | .object ms, _, h => by
    rw [ofDoc?] at h
    obtain ⟨vs, members, rfl⟩ := Option.map_eq_some_iff.1 h
    rw [depth, Doc.depth, depth_of_ofMembers? ms members]

theorem depth_of_ofItems? : (ds : List Doc) → {vs : List Value} → ofItems? ds = some vs →
    depthItems vs = Doc.depthItems ds
  | [], _, h => by cases h; rfl
  | d :: ds, _, h => by
    obtain ⟨v, first, h⟩ := Option.bind_eq_some_iff.1 h
    obtain ⟨vs, rest, rfl⟩ := Option.map_eq_some_iff.1 h
    rw [depthItems, Doc.depthItems, depth_of_ofDoc? d first, depth_of_ofItems? ds rest]

theorem depth_of_ofMembers? : (ms : List (Key × Doc)) → {vs : List (String × Value)} →
    ofMembers? ms = some vs → depthMembers vs = Doc.depthMembers ms
  | [], _, h => by cases h; rfl
  | (k, d) :: ms, _, h => by
    obtain ⟨key, _, h⟩ := Option.bind_eq_some_iff.1 h
    obtain ⟨v, first, h⟩ := Option.bind_eq_some_iff.1 h
    obtain ⟨vs, rest, rfl⟩ := Option.map_eq_some_iff.1 h
    rw [depthMembers, Doc.depthMembers, depth_of_ofDoc? d first, depth_of_ofMembers? ms rest]

end

end Value

end Trellis.Json
