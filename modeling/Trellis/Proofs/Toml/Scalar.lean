import Trellis.Defaults.Document
import Trellis.Proofs.Decimal.Positional

/-!
# Written scalars are read back

A truth value, a word and a finite double are each read as the item they were written from.  What is
made of digits, a point and a minus sign in front is neither a word nor a moment, so it is a number;
with a point it is no integer.
-/

namespace Trellis.Toml

open Json

/-! ## Moments -/

namespace Moment

theorem eq_drop_of_fixed? {n : Nat} {cs : List Char} {split : Nat × List Char}
    (h : fixed? n cs = some split) : split.2 = cs.drop n := by
  unfold fixed? at h
  split at h
  · cases h
    rfl
  · cases h

theorem mem_of_behind? {c : Char} {cs rest : List Char} (h : behind? c cs = some rest) : c ∈ cs := by
  cases cs with
  | nil => cases h
  | cons d cs =>
    rw [behind?] at h
    split at h
    · next same => exact List.mem_cons.2 (.inl same.symm)
    · cases h

/-- Without a colon and without a hyphen behind the first character, nothing is a moment. -/
theorem not_isWritten {cs : List Char} (colon : ':' ∉ cs) (hyphen : '-' ∉ cs.tail) :
    isWritten cs = false := by
  have date : behindDate? cs = none := by
    cases year : fixed? 4 cs with
    | none => rw [behindDate?, year]; rfl
    | some split =>
      have stop : behind? '-' split.2 = none := by
        cases found : behind? '-' split.2 with
        | none => rfl
        | some rest =>
          have behind := mem_of_behind? found
          rw [eq_drop_of_fixed? year] at behind
          rw [← List.drop_one] at hyphen
          exact absurd (List.mem_of_mem_drop (i := 3) (by rwa [List.drop_drop])) hyphen
      rw [behindDate?, year]
      dsimp only [Option.bind_eq_bind, Option.bind_some]
      rw [stop]
      rfl
  have time : behindTime? cs = none := by
    cases hour : fixed? 2 cs with
    | none => rw [behindTime?, behindClock?, hour]; rfl
    | some split =>
      have stop : behind? ':' split.2 = none := by
        cases found : behind? ':' split.2 with
        | none => rfl
        | some rest =>
          have behind := mem_of_behind? found
          rw [eq_drop_of_fixed? hour] at behind
          exact absurd (List.mem_of_mem_drop behind) colon
      rw [behindTime?, behindClock?, hour]
      dsimp only [Option.bind_eq_bind, Option.bind_some]
      rw [stop]
      rfl
  rw [isWritten, date, time]
  rfl

end Moment

namespace Scalar

/-! ## Digits -/

theorem digits?_of_forall {ds : List Char} (ne : ds ≠ []) (h : ∀ c ∈ ds, c.isDigit = true) :
    digits? Char.isDigit ds = some ds := by
  induction ds with
  | nil => exact absurd rfl ne
  | cons c ds ih =>
    have hc := h c List.mem_cons_self
    have rest : ∀ d ∈ ds, d.isDigit = true := fun d hd => h d (List.mem_cons_of_mem c hd)
    unfold digits?
    split
    · next e => cases e
    · next e =>
      cases e
      exact if_pos hc
    · next e =>
      cases e
      exact absurd (rest '_' List.mem_cons_self) (by decide)
    · next single _ e =>
      cases e
      rw [if_pos hc, ih single rest]
      rfl

/-- Digits with underscores hold nothing else. -/
theorem mem_of_digits? {isDigit : Char → Bool} {cs ds : List Char}
    (h : digits? isDigit cs = some ds) : ∀ c ∈ cs, isDigit c = true ∨ c = '_' := by
  fun_induction digits? isDigit cs generalizing ds with
  | case1 => exact nofun
  | case2 c hc => exact List.forall_mem_singleton.2 (.inl hc)
  | case3 => cases h
  | case4 c cs hc ih =>
    obtain ⟨ds, read, rfl⟩ := Option.map_eq_some_iff.1 h
    exact List.forall_mem_cons.2 ⟨.inl hc, List.forall_mem_cons.2 ⟨.inr rfl, ih read⟩⟩
  | case5 => cases h
  | case6 c cs _ _ hc ih =>
    obtain ⟨ds, read, rfl⟩ := Option.map_eq_some_iff.1 h
    exact List.forall_mem_cons.2 ⟨.inl hc, ih read⟩
  | case7 => cases h

theorem decimalDigits?_of_wellLed {ds : List Char} (led : Numeral.wellLed ds = true)
    (h : ∀ c ∈ ds, c.isDigit = true) : decimalDigits? ds = some ds := by
  have ne : ds ≠ [] := by
    intro none
    subst none
    cases led
  unfold decimalDigits?
  rw [digits?_of_forall ne h]
  split
  · next e =>
    cases e
    cases led
  · rfl

theorem decimalDigits?_of_point {cs : List Char} (h : '.' ∈ cs) : decimalDigits? cs = none := by
  unfold decimalDigits?
  cases read : digits? Char.isDigit cs with
  | none => rfl
  | some ds => exact absurd (mem_of_digits? read '.' h) (by decide)

theorem valueOf_ten {ds : List Char} (h : ∀ c ∈ ds, c.isDigit = true) :
    valueOf 10 ds = Numeral.value ds := by
  have fold : ∀ n, ds.foldl (fun n c => n * 10 + digitValue c) n = ds.foldl Numeral.append n := by
    induction ds with
    | nil => exact fun _ => rfl
    | cons c ds ih =>
      intro n
      have first : digitValue c = c.toNat - '0'.toNat := if_pos (h c List.mem_cons_self)
      rw [List.foldl_cons, List.foldl_cons, ih fun d hd => h d (List.mem_cons_of_mem c hd), first]
      rfl
  exact fold 0

/-! ## Numbers -/

/-- Digits and points behind a first digit. -/
structure IsNumber (body : List Char) : Prop where
  head : ∃ c rest, body = c :: rest ∧ c.isDigit = true
  all : ∀ c ∈ body, c.isDigit = true ∨ c = '.'

/-- A number with its sign, which is written where it is a minus. -/
def withSign (negative : Bool) (body : List Char) : List Char :=
  if negative then '-' :: body else body

section Number

variable {body : List Char} (number : IsNumber body) (negative : Bool)

include number

theorem not_mem_number {c : Char} (digit : c.isDigit = false) (point : c ≠ '.') : c ∉ body := by
  intro inside
  rcases number.all c inside with h | h
  · rw [digit] at h
    cases h
  · exact point h

theorem sign_withSign : sign (withSign negative body) = (negative, body) := by
  obtain ⟨c, rest, rfl, hc⟩ := number.head
  cases negative with
  | true => rfl
  | false =>
    show sign (c :: rest) = (false, c :: rest)
    unfold sign
    split
    · next e =>
      cases e
      cases hc
    · next e =>
      cases e
      cases hc
    · rfl

/-- A number begins with a digit or a minus sign. -/
theorem head_withSign {c : Char} {cs : List Char} (h : withSign negative body = c :: cs) :
    c.isDigit = true ∨ c = '-' := by
  obtain ⟨d, rest, rfl, hd⟩ := number.head
  cases negative with
  | true =>
    cases h
    exact .inr rfl
  | false =>
    cases h
    exact .inl hd

theorem not_isWritten_withSign : Moment.isWritten (withSign negative body) = false := by
  have colon : ':' ∉ body := not_mem_number number (by decide) (by decide)
  have hyphen : '-' ∉ body := not_mem_number number (by decide) (by decide)
  cases negative with
  | true =>
    apply Moment.not_isWritten
    · exact fun h => colon ((List.mem_cons.1 h).resolve_left (by decide))
    · exact hyphen
  | false =>
    apply Moment.not_isWritten
    · exact colon
    · exact fun h => hyphen (List.mem_of_mem_tail h)

theorem named?_withSign : named? (withSign negative body) = none := by
  obtain ⟨c, rest, e, hc⟩ := number.head
  unfold named?
  rw [sign_withSign number, e]
  split
  · next h =>
    cases h
    cases hc
  · next h =>
    cases h
    cases hc
  · rfl

/-- What is written as a number is an integer or a double. -/
theorem item?_withSign : item? (withSign negative body)
    = (integer? (withSign negative body)).or (float? (withSign negative body)) := by
  have notTrue : withSign negative body ≠ ['t', 'r', 'u', 'e'] := fun h =>
    absurd (head_withSign number negative h) (by decide)
  have notFalse : withSign negative body ≠ ['f', 'a', 'l', 's', 'e'] := fun h =>
    absurd (head_withSign number negative h) (by decide)
  rw [item?, if_neg notTrue, if_neg notFalse, not_isWritten_withSign number, if_neg (by decide),
    named?_withSign number]
  rfl

/-- No mark of a base stands in front of a number. -/
theorem integer?_withSign : integer? (withSign negative body)
    = match decimalDigits? body with
      | some ds => some (ofInteger (signed negative (valueOf 10 ds)))
      | none => if isMixed body then some .void else none := by
  have noMark : ∀ {c : Char} {cs : List Char}, c.isDigit = false → c ≠ '.' →
      withSign negative body ≠ '0' :: c :: cs := by
    intro c cs digit point h
    cases negative with
    | true => cases h
    | false =>
      have inside : c ∈ withSign false body := by
        rw [h]
        exact List.mem_cons_of_mem _ List.mem_cons_self
      exact not_mem_number number digit point inside
  unfold integer?
  split
  · next h => exact absurd h (noMark (by decide) (by decide))
  · next h => exact absurd h (noMark (by decide) (by decide))
  · next h => exact absurd h (noMark (by decide) (by decide))
  · have parts := sign_withSign number negative
    generalize sign (withSign negative body) = split at parts ⊢
    subst parts
    rfl

end Number

/-- **The digits of a number that fits are read as it.** -/
theorem item?_digits {n : Nat} (fits : n < twoTo 127) :
    item? (Layout.digits n) = some (.integer n) := by
  have isDigit : ∀ c ∈ Layout.digits n, c.isDigit = true := fun _ => Layout.isDigit_of_mem_digits
  have number : IsNumber (Layout.digits n) := by
    obtain ⟨c, rest, e⟩ := List.exists_cons_of_ne_nil (Layout.digits_ne_nil n)
    exact ⟨⟨c, rest, e, isDigit c (by rw [e]; exact List.mem_cons_self)⟩,
      fun d hd => .inl (isDigit d hd)⟩
  have range : -(twoTo 127 : Int) ≤ n ∧ (n : Int) < twoTo 128 := by
    have : twoTo 128 = twoTo 127 * 2 := twoTo_succ 127
    omega
  have integer : integer? (withSign false (Layout.digits n)) = some (.integer n) := by
    rw [integer?_withSign number, decimalDigits?_of_wellLed (Numeral.wellLed_digits n) isDigit]
    dsimp only
    rw [valueOf_ten isDigit, Numeral.value_digits, signed, if_neg (by decide), ofInteger,
      if_pos range]
  show item? (withSign false (Layout.digits n)) = _
  rw [item?_withSign number, integer]
  rfl

/-- The first character of a kind splits a text. -/
theorem splitAt?_append {p : Char → Bool} {front : List Char} (h : ∀ c ∈ front, p c = false)
    {c : Char} (hc : p c = true) (back : List Char) :
    splitAt? p (front ++ c :: back) = (front, some back) := by
  have skip : ∀ d ∈ front, (!p d) = true := fun d hd => by rw [h d hd]; rfl
  have stop : (!p c) = false := by rw [hc]; rfl
  rw [splitAt?, List.dropWhile_append_of_pos skip, List.takeWhile_append_of_pos skip]
  simp only [List.dropWhile_cons, List.takeWhile_cons, stop, Bool.false_eq_true, if_false,
    List.append_nil]

theorem splitAt?_of_forall {p : Char → Bool} {cs : List Char} (h : ∀ c ∈ cs, p c = false) :
    splitAt? p cs = (cs, none) := by
  have skip : ∀ d ∈ cs, (!p d) = true := fun d hd => by rw [h d hd]; rfl
  have nothing : (cs ++ []).dropWhile (fun c => !p c) = [] := List.dropWhile_append_of_pos skip
  rw [List.append_nil] at nothing
  rw [splitAt?, nothing]

/-- Digits with a point between them are read as the double nearest to what they spell. -/
theorem item?_spells {d : Decimal} {whole places : List Char} (spells : Layout.Spells d whole places)
    {x : Float} (nearest : d.toFloat? = some x) :
    item? (withSign d.negative (whole ++ '.' :: places)) = some (.float x) := by
  have number : IsNumber (whole ++ '.' :: places) := by
    constructor
    · cases whole with
      | nil => cases spells.led
      | cons c whole => exact ⟨c, whole ++ '.' :: places, rfl, spells.front c List.mem_cons_self⟩
    · intro c inside
      rcases List.mem_append.1 inside with h | h
      · exact .inl (spells.front c h)
      · rcases List.mem_cons.1 h with h | h
        · exact .inr h
        · exact .inl (spells.back c h)
  have point : '.' ∈ whole ++ '.' :: places := by simp
  have integer : integer? (withSign d.negative (whole ++ '.' :: places)) = none := by
    have mixed : isMixed (whole ++ '.' :: places) = false := by
      cases h : isMixed (whole ++ '.' :: places) with
      | false => rfl
      | true =>
        simp only [isMixed, Bool.and_eq_true] at h
        exact absurd (List.all_eq_true.1 h.1.2 '.' point) (by decide)
    rw [integer?_withSign number, decimalDigits?_of_point point]
    dsimp only
    rw [mixed]
    rfl
  have power : splitAt? (fun c => c = 'e' || c = 'E') (whole ++ '.' :: places)
      = (whole ++ '.' :: places, none) := by
    apply splitAt?_of_forall
    intro c inside
    rcases number.all c inside with h | rfl
    · cases e : (decide (c = 'e') || decide (c = 'E')) with
      | false => rfl
      | true =>
        rcases (by simpa using e : c = 'e' ∨ c = 'E') with rfl | rfl
        · cases h
        · cases h
    · rfl
  have halves : splitAt? (· = '.') (whole ++ '.' :: places) = (whole, some places) := by
    apply splitAt?_append
    · intro c inside
      apply decide_eq_false
      rintro rfl
      cases spells.front '.' inside
    · rfl
  have read : valueOf 10 (whole ++ places) = Numeral.value (whole ++ places) :=
    valueOf_ten (List.forall_mem_append.2 ⟨spells.front, spells.back⟩)
  have exponent : (0 : Int) - places.length = -(places.length : Int) := by omega
  have float : float? (withSign d.negative (whole ++ '.' :: places)) = some (.float x) := by
    rw [Decimal.toFloat?, ← spells.nearest d.negative] at nearest
    rw [float?, sign_withSign number]
    dsimp only
    rw [power]
    dsimp only
    rw [halves]
    dsimp only
    rw [decimalDigits?_of_wellLed spells.led spells.front, places?,
      digits?_of_forall spells.nonempty spells.back, power?]
    dsimp only [Option.bind_eq_bind, Option.bind_some]
    rw [read, exponent, Decimal.toFloat?, nearest]
    rfl
  rw [item?_withSign number, integer, float]
  rfl

/-- A finite double is written with a point between its digits. -/
theorem floatText_spells {x : Float} (finite : x.isFinite = true) :
    ∃ whole places, Layout.Spells (Decimal.ofFloat x) whole places
      ∧ Defaults.layout.floatText x
        = withSign (Decimal.ofFloat x).negative (whole ++ '.' :: places) := by
  have plain : (Decimal.ofFloat x).digits = 0 → (Decimal.ofFloat x).exponent = 0 :=
    Decimal.exponent_ofBits (Binary.magnitudeBits_lt finite)
  obtain ⟨whole, places, text, spells⟩ := Layout.positionalText_spells
    (rfl : Defaults.layout.wholePoint = true) plain
  refine ⟨whole, places, spells, ?_⟩
  rw [Layout.floatText, isNaN_of_isFinite finite, if_neg (by decide), if_pos finite, ← text]
  rfl

/-- **The text of a finite double is read as it.** -/
theorem item?_floatText {x : Float} (finite : x.isFinite = true) :
    item? (Defaults.layout.floatText x) = some (.float x) := by
  obtain ⟨whole, places, spells, text⟩ := floatText_spells finite
  rw [text]
  exact item?_spells spells (Decimal.toFloat?_ofFloat finite)

theorem item?_boolText (b : Bool) : item? (Defaults.boolText b) = some (.bool b) := by
  cases b with
  | false => rfl
  | true => rfl

end Scalar

end Trellis.Toml
