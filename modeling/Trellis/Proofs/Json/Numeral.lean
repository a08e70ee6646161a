import Trellis.Json.Print
import Trellis.Proofs.Double

/-!
# Written numbers

The text of a number that is not an infinity is a digit or a minus sign with numeral characters
behind it (`Number.written_write`), so a scanner that meets it stays inside one numeral.  Whole
numbers of sixty-four bits are read back from their digits.  A double is read quickly and may be
missed in its last place, so reading back is a property of a number, `Number.ReadsBack`, that can be
evaluated.
-/

namespace Trellis

/-! ## Digits of natural numbers -/

namespace Layout

theorem digits_ne_nil (n : Nat) : digits n ≠ [] := Nat.toDigits_ne_nil

theorem isDigit_of_mem_digits {n : Nat} {c : Char} (h : c ∈ digits n) : c.isDigit = true :=
  Nat.isDigit_of_mem_toDigits (by decide) (by decide) h

/-- A positive number does not begin with a zero. -/
theorem head_digits (n : Nat) (h : 0 < n) : ∃ c ds, digits n = c :: ds ∧ c ≠ '0' := by
  induction n using Nat.strongRecOn with
  | ind n ih =>
    by_cases small : n < 10
    · refine ⟨n.digitChar, [], Nat.toDigits_of_lt_base small, ?_⟩
      have tenth : ∀ k < 10, 0 < k → k.digitChar ≠ '0' := by decide
      exact tenth n small h
    · obtain ⟨c, ds, e, hc⟩ := ih (n / 10) (by omega) (by omega)
      refine ⟨c, ds ++ [(n % 10).digitChar], ?_, hc⟩
      rw [digits] at e
      rw [digits, Nat.toDigits_of_base_le (by decide) (by omega), e]
      rfl

end Layout

namespace Json

namespace Numeral

theorem digits_of_forall {ds : List Char} (h : ∀ c ∈ ds, c.isDigit = true) :
    digits ds = (ds, []) := by
  have front : (ds ++ []).takeWhile Char.isDigit = ds ++ [].takeWhile Char.isDigit :=
    List.takeWhile_append_of_pos h
  have behind : (ds ++ []).dropWhile Char.isDigit = [].dropWhile Char.isDigit :=
    List.dropWhile_append_of_pos h
  simp only [List.append_nil, List.takeWhile_nil, List.dropWhile_nil] at front behind
  rw [digits, front, behind]

theorem value_digits (n : Nat) : value (Layout.digits n) = n := by
  have fold : value (Layout.digits n) = Nat.ofDigitChars 10 (Nat.toDigits 10 n) 0 := by
    rw [Nat.ofDigitChars_eq_foldl, value, Layout.digits]
    congr 1
    funext k c
    rw [append, Nat.mul_comm]
  rw [fold, Nat.ofDigitChars_ten_toDigits]

theorem wellLed_digits (n : Nat) : wellLed (Layout.digits n) = true := by
  by_cases h : 0 < n
  · obtain ⟨c, ds, e, hc⟩ := Layout.head_digits n h
    rw [e]
    unfold wellLed
    split <;> simp_all
  · obtain rfl : n = 0 := by omega
    decide

/-- Digits alone are a whole numeral. -/
theorem ofUnsigned?_digits (negative : Bool) (n : Nat) :
    ofUnsigned? negative (Layout.digits n) = some ⟨negative, Layout.digits n, [], none⟩ := by
  rw [ofUnsigned?, digits_of_forall fun _ => Layout.isDigit_of_mem_digits]
  simp [wellLed_digits, fraction?, exponent?]

theorem ofChars?_digits (n : Nat) :
    ofChars? (Layout.digits n) = some ⟨false, Layout.digits n, [], none⟩ := by
  rw [← ofUnsigned?_digits]
  unfold ofChars?
  split
  · next cs e =>
    have minus : '-' ∈ Layout.digits n := by rw [e]; simp
    exact absurd (Layout.isDigit_of_mem_digits minus) (by decide)
  · rfl

/-! ## Texts that stay inside one numeral -/

/-- A digit with numeral characters behind it. -/
structure Digital (cs : List Char) : Prop where
  head : ∃ c rest, cs = c :: rest ∧ c.isDigit = true
  all : ∀ c ∈ cs, Token.isNumeral c = true

/-- A digit or a minus sign with numeral characters behind it. -/
structure Written (cs : List Char) : Prop where
  head : ∃ c rest, cs = c :: rest ∧ (c.isDigit = true ∨ c = '-')
  all : ∀ c ∈ cs, Token.isNumeral c = true

theorem isNumeral_of_isDigit {c : Char} (h : c.isDigit = true) : Token.isNumeral c = true := by
  simp [Token.isNumeral, h]

theorem Digital.written {cs : List Char} (h : Digital cs) : Written cs := by
  obtain ⟨c, rest, e, hc⟩ := h.head
  exact ⟨⟨c, rest, e, .inl hc⟩, h.all⟩

theorem Digital.negated {cs : List Char} (h : Digital cs) : Written ('-' :: cs) := by
  refine ⟨⟨'-', cs, rfl, .inr rfl⟩, fun c hc => ?_⟩
  rcases List.mem_cons.1 hc with rfl | hc
  · decide
  · exact h.all c hc

theorem digital_of_forall {ds : List Char} (ne : ds ≠ []) (h : ∀ c ∈ ds, c.isDigit = true) :
    Digital ds := by
  obtain ⟨c, rest, rfl⟩ := List.exists_cons_of_ne_nil ne
  exact ⟨⟨c, rest, rfl, h c (by simp)⟩, fun d hd => isNumeral_of_isDigit (h d hd)⟩

/-- More numeral characters may follow. -/
theorem Digital.append {cs ds : List Char} (h : Digital cs)
    (hd : ∀ c ∈ ds, Token.isNumeral c = true) : Digital (cs ++ ds) := by
  obtain ⟨c, rest, rfl, hc⟩ := h.head
  refine ⟨⟨c, rest ++ ds, rfl, hc⟩, fun x hx => ?_⟩
  rcases List.mem_append.1 hx with hx | hx
  · exact h.all x hx
  · exact hd x hx

theorem digital_digits (n : Nat) : Digital (Layout.digits n) :=
  digital_of_forall (Layout.digits_ne_nil n) fun _ => Layout.isDigit_of_mem_digits

theorem isNumeral_of_mem_zeros {n : Nat} {c : Char} (h : c ∈ Layout.zeros n) :
    Token.isNumeral c = true := by
  rw [List.eq_of_mem_replicate h]
  decide

section Decimal

variable {ds : List Char}

theorem digital_positionalText (l : Layout) (ne : ds ≠ []) (h : ∀ c ∈ ds, c.isDigit = true)
    (exponent : Int) : Digital (l.positionalText ds exponent) := by
  unfold Layout.positionalText
  split
  · refine ((digital_of_forall ne h).append fun _ => isNumeral_of_mem_zeros).append ?_
    split
    · simp
      decide
    · simp
  · dsimp only
    split
    · next fits =>
      -- the digits in front of the point are not all of them, so there is one
      have front : ds.take (ds.length - exponent.natAbs) ≠ [] := by
        intro none
        have := congrArg List.length none
        simp only [List.length_take, List.length_nil] at this
        omega
      refine (digital_of_forall front fun c hc => h c (List.mem_of_mem_take hc)).append ?_
      intro c hc
      rcases List.mem_cons.1 hc with rfl | hc
      · decide
      · exact isNumeral_of_isDigit (h c (List.mem_of_mem_drop hc))
    · have zero : Digital ['0'] := digital_of_forall (by simp) (by simp)
      refine zero.append ?_
      intro c hc
      rcases List.mem_cons.1 hc with rfl | hc
      · decide
      · rcases List.mem_append.1 hc with hc | hc
        · exact isNumeral_of_mem_zeros hc
        · exact isNumeral_of_isDigit (h c hc)

theorem digital_exponentText (ne : ds ≠ []) (h : ∀ c ∈ ds, c.isDigit = true) (leading : Int) :
    Digital (Layout.exponentText ds leading) := by
  obtain ⟨d, rest, rfl⟩ := List.exists_cons_of_ne_nil ne
  have tail : ∀ c ∈ 'e' :: (if leading < 0 then '-' else '+') :: Layout.digits leading.natAbs,
      Token.isNumeral c = true := by
    intro c hc
    rcases List.mem_cons.1 hc with rfl | hc
    · decide
    · rcases List.mem_cons.1 hc with rfl | hc
      · split <;> decide
      · exact (digital_digits _).all c hc
  have first : Digital [d] := digital_of_forall (by simp) fun c hc => h c (by simp_all)
  unfold Layout.exponentText
  cases rest with
  | nil => exact first.append tail
  | cons x xs =>
    have places : ∀ c ∈ '.' :: x :: xs, Token.isNumeral c = true := by
      intro c hc
      rcases List.mem_cons.1 hc with rfl | hc
      · decide
      · exact isNumeral_of_isDigit (h c (List.mem_cons_of_mem d hc))
    exact (first.append places).append tail

theorem written_decimalText (l : Layout) (d : Decimal) : Written (l.decimalText d) := by
  have ne := Layout.digits_ne_nil d.digits
  have h : ∀ c ∈ Layout.digits d.digits, c.isDigit = true :=
    fun _ => Layout.isDigit_of_mem_digits
  unfold Layout.decimalText
  dsimp only
  split
  · split
    · exact (digital_positionalText l ne h _).negated
    · exact (digital_exponentText ne h _).negated
  · split
    · exact (digital_positionalText l ne h _).written
    · exact (digital_exponentText ne h _).written

end Decimal

end Numeral

namespace Number

/-- The text of the number is read as this number. -/
def ReadsBack (n : Number) : Prop := (Numeral.ofChars? n.write).bind ofNumeral? = some n

instance (n : Number) : Decidable n.ReadsBack := inferInstanceAs (Decidable (_ = _))

theorem readsBack_natural {n : Nat} (h : n < Numeral.bound) : (natural n).ReadsBack := by
  rw [ReadsBack, write, Numeral.ofChars?_digits, Option.bind_some, ofNumeral?]
  simp [Numeral.value_digits, Numeral.isWhole, h]

theorem readsBack_negative {n : Nat} (pos : 0 < n) (h : n ≤ 0x8000000000000000) :
    (negative n).ReadsBack := by
  rw [ReadsBack, write, Numeral.ofChars?, Numeral.ofUnsigned?_digits, Option.bind_some, ofNumeral?]
  simp [Numeral.value_digits, Numeral.isWhole, pos, h]

/-- The text of a number is a numeral unless it is the word for what is not finite. -/
theorem written_or_null (n : Number) :
    Numeral.Written n.write ∨ n.write = ['n', 'u', 'l', 'l'] := by
  cases n with
  | natural n => exact .inl (Numeral.digital_digits n).written
  | negative n => exact .inl (Numeral.digital_digits n).negated
  | float x =>
    by_cases finite : x.isFinite
    · have nan : x.isNaN = false := isNaN_of_isFinite finite
      rw [write, if_pos finite, Layout.floatText, if_neg (by rw [nan]; decide),
        if_pos finite]
      exact .inl (Numeral.written_decimalText _ _)
    · exact .inr (by rw [write, if_neg finite])

end Number

end Json

end Trellis
