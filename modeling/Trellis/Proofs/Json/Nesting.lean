import Trellis.Json.Nesting
import Trellis.Json.Token

/-!
# The bracket count and the scanner

The bracket count runs over characters and never reads them as tokens.  It keeps pace with the
scanner all the same: as long as nothing illegal is met, the one is inside a string where the other
is (`fed_feed`), so a text is counted as its tokens are (`run_deepest`).
-/

namespace Trellis.Json

/-! ## Counting tokens -/

namespace Nesting

/-- One more token. -/
def token (n : Nesting) : Token → Nesting
  | .openArray | .openObject =>
    { n with depth := n.depth + 1, deepest := max n.deepest (n.depth + 1) }
  | .closeArray | .closeObject => { n with depth := n.depth - 1 }
  | _ => n

def tokens (n : Nesting) (ts : List Token) : Nesting := ts.foldl token n

/-- The same count inside or outside of a string. -/
def inside (n : Nesting) (quoted : Option Bool) : Nesting := { n with quoted := quoted }

theorem tokens_cons (n : Nesting) (t : Token) (ts : List Token) :
    n.tokens (t :: ts) = (n.token t).tokens ts := rfl

theorem tokens_append (n : Nesting) (ts us : List Token) :
    n.tokens (ts ++ us) = (n.tokens ts).tokens us := List.foldl_append

theorem tokens_inside (n : Nesting) (quoted : Option Bool) (ts : List Token) :
    (n.inside quoted).tokens ts = (n.tokens ts).inside quoted := by
  induction ts generalizing n with
  | nil => rfl
  | cons t ts ih =>
    have one : (n.inside quoted).token t = (n.token t).inside quoted := by cases t <;> rfl
    rw [tokens_cons, tokens_cons, one, ih]

/-- Words, numerals and strings are not counted, even where they are at fault. -/
theorem token_ofWord (n : Nesting) (letters : List Char) : n.token (Token.ofWord letters) = n := by
  unfold Token.ofWord
  repeat' split
  all_goals rfl

theorem token_ofNumeral (n : Nesting) (cs : List Char) : n.token (Token.ofNumeral cs) = n := by
  unfold Token.ofNumeral
  split <;> rfl

/-! ## Keeping pace with the scanner -/

/-- The characters that the count looks at outside of strings. -/
def marks : List Char := ['"', '\x7b', '[', '\x7d', ']']

/-- A character of a class without these is passed over. -/
theorem feed_other {n : Nesting} {c : Char} {p : Char → Bool} (outside : n.quoted = none)
    (hc : p c = true) (hp : marks.any p = false) : n.feed c = n := by
  have other : ∀ d ∈ marks, c ≠ d := by
    rintro d hd rfl
    exact List.any_eq_false.1 hp c hd hc
  simp only [marks, List.forall_mem_cons] at other
  obtain ⟨quote, openObject, openArray, closeObject, closeArray, -⟩ := other
  simp [feed, outside, quote, openObject, openArray, closeObject, closeArray]

end Nesting

/-- Whether the scanner is inside a string, and whether behind a backslash there. -/
def Scan.quoted : Scan → Option Bool
  | .string _ | .unit .. => some false
  | .escape _ => some true
  | _ => none

namespace Nesting

/-- The count and the scanner are in the same place. -/
structure Paced (n : Nesting) (s : Scan) : Prop where
  quoted : n.quoted = s.quoted
  going : s ≠ .stuck

/-- What is counted of one character: the tokens that it completes. -/
structure Fed (n : Nesting) (c : Char) (after : List Token × Scan) : Prop where
  feed : n.feed c = (n.tokens after.1).inside after.2.quoted
  going : after.2 ≠ .stuck

/-- A character that the count passes over and that completes no token. -/
theorem fed_of_feed {n : Nesting} {c : Char} {s : Scan} (same : n.feed c = n)
    (paced : n.Paced s) : n.Fed c ([], s) := by
  refine ⟨same.trans ?_, paced.going⟩
  rw [← paced.quoted]
  rfl

/-- A character that stands between tokens or begins one. -/
theorem fed_start {n : Nesting} {c : Char} (outside : n.quoted = none)
    (legal : Token.illegal ∉ (Scan.start c).1) : n.Fed c (Scan.start c) := by
  obtain ⟨depth, deepest, quoted⟩ := n
  obtain rfl : quoted = none := outside
  revert legal
  fun_cases Scan.start c with
  | case1 blank =>
    exact fun _ => fed_of_feed (feed_other rfl blank (by decide)) ⟨rfl, nofun⟩
  | case2 | case3 | case4 | case5 | case6 | case7 | case8 =>
    subst c
    exact fun _ => ⟨rfl, nofun⟩
  | case9 _ _ _ _ _ _ _ _ numeral =>
    have plain := feed_other (n := ⟨depth, deepest, none⟩) (p := fun c => c.isDigit || c = '-')
      rfl numeral (by decide)
    exact fun _ => fed_of_feed plain ⟨rfl, nofun⟩
  | case10 _ _ _ _ _ _ _ _ _ alpha =>
    exact fun _ => fed_of_feed (feed_other rfl alpha (by decide)) ⟨rfl, nofun⟩
  | case11 => exact fun legal => absurd (List.mem_singleton_self _) legal

/-- A character that ends a word or a numeral, whose token is not counted. -/
theorem fed_behind {n : Nesting} {c : Char} {t : Token} (outside : n.quoted = none)
    (uncounted : n.token t = n) (legal : Token.illegal ∉ t :: (Scan.start c).1) :
    n.Fed c (t :: (Scan.start c).1, (Scan.start c).2) := by
  have next := fed_start outside (List.not_mem_of_not_mem_cons legal)
  refine ⟨?_, next.going⟩
  rw [next.feed, tokens_cons, uncounted]

/-- Inside a string a character other than a quote or a backslash is passed over. -/
theorem feed_quoted {depth deepest : Nat} {c : Char} (quote : c ≠ '"') (backslash : c ≠ '\\') :
    feed ⟨depth, deepest, some false⟩ c = ⟨depth, deepest, some false⟩ := by
  simp [feed, quote, backslash]

/-- **The count keeps pace with the scanner**, one character at a time. -/
theorem fed_feed {n : Nesting} {s : Scan} {c : Char} (paced : n.Paced s)
    (legal : Token.illegal ∉ (s.feed c).1) : n.Fed c (s.feed c) := by
  obtain ⟨depth, deepest, quoted⟩ := n
  obtain ⟨rfl, going⟩ := paced
  have fault : ¬ Token.illegal ∉ [Token.illegal] := not_not_intro (List.mem_singleton_self _)
  revert legal
  cases s with
  | between => exact fun legal => fed_start rfl legal
  | word cs =>
    rw [Scan.feed]
    split
    · next alpha => exact fun _ => fed_of_feed (feed_other rfl alpha (by decide)) ⟨rfl, nofun⟩
    · exact fun legal => fed_behind rfl (token_ofWord _ _) legal
  | numeral cs =>
    rw [Scan.feed]
    split
    · next numeral =>
      exact fun _ => fed_of_feed (feed_other rfl numeral (by decide)) ⟨rfl, nofun⟩
    · exact fun legal => fed_behind rfl (token_ofNumeral _ _) legal
  | string ps =>
    rw [Scan.feed]
    split
    · subst c
      exact fun _ => ⟨rfl, nofun⟩
    split
    · subst c
      exact fun _ => ⟨rfl, nofun⟩
    split
    · exact fun legal => absurd legal fault
    · next quote backslash _ =>
      exact fun _ => fed_of_feed (feed_quoted quote backslash) ⟨rfl, nofun⟩
  | escape ps =>
    -- behind a backslash the count passes over any character, a quote included
    rw [Scan.feed]
    split
    · exact fun _ => ⟨rfl, nofun⟩
    split
    · exact fun _ => ⟨rfl, nofun⟩
    · exact fun legal => absurd legal fault
  | unit ps left value =>
    rw [Scan.feed]
    split
    · next digit =>
      have plain : feed ⟨depth, deepest, some false⟩ c = ⟨depth, deepest, some false⟩ := by
        have quote : Token.hexValue? '"' = none := by decide
        have backslash : Token.hexValue? '\\' = none := by decide
        refine feed_quoted ?_ ?_ <;> rintro rfl
        · rw [quote] at digit
          cases digit
        · rw [backslash] at digit
          cases digit
      split
      · exact fun _ => fed_of_feed plain ⟨rfl, nofun⟩
      · exact fun _ => fed_of_feed plain ⟨rfl, nofun⟩
    · exact fun legal => absurd legal fault
  | stuck => exact absurd rfl going

/-- What the end of a text completes is not counted. -/
theorem tokens_finish (n : Nesting) (s : Scan) : n.tokens s.finish = n := by
  cases s with
  | word cs => exact token_ofWord n cs.reverse
  | numeral cs => exact token_ofNumeral n cs.reverse
  | _ => rfl

theorem Fed.paced {n : Nesting} {c : Char} {after : List Token × Scan} (fed : n.Fed c after) :
    (n.feed c).Paced after.2 := ⟨by rw [fed.feed]; rfl, fed.going⟩

/-- **A text is counted as its tokens are**, as long as none of them is illegal. -/
theorem run_deepest {cs : List Char} {n : Nesting} {s : Scan} (paced : n.Paced s)
    (legal : Token.illegal ∉ s.run cs) : (n.run cs).deepest = (n.tokens (s.run cs)).deepest := by
  induction cs generalizing n s with
  | nil => rw [Scan.run_nil, tokens_finish, run_nil]
  | cons c cs ih =>
    rw [Scan.run_cons, List.mem_append, not_or] at legal
    have fed := fed_feed paced legal.1
    rw [run_cons, ih fed.paced legal.2, fed.feed, tokens_inside, Scan.run_cons, tokens_append]
    rfl

theorem nesting_eq_tokens {cs : List Char} (legal : Token.illegal ∉ Token.scan cs) :
    nesting cs = (start.tokens (Token.scan cs)).deepest :=
  run_deepest ⟨rfl, nofun⟩ legal

end Nesting

end Trellis.Json
