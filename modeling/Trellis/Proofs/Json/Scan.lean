import Trellis.Proofs.Json.Numeral

/-!
# Scanning written text

Each part of a written text, scanned between tokens, is one token with the scanner between tokens
again behind it: blanks are passed over, a string ends at its own quote whatever characters it
holds, and a word or a numeral ends where the text behind it is `Parted`.
-/

namespace Trellis.Json.Scan

/-! ## Blanks and brackets -/

theorem run_blank {c : Char} (h : Token.isBlank c = true) (cs : List Char) :
    run between (c :: cs) = run between cs := by
  simp [run_cons, feed, start, h]

theorem run_blanks {bs : List Char} (h : ∀ c ∈ bs, Token.isBlank c = true) (cs : List Char) :
    run between (bs ++ cs) = run between cs := by
  induction bs with
  | nil => rfl
  | cons b bs ih =>
    rw [List.cons_append, run_blank (h b (by simp)), ih fun c hc => h c (by simp [hc])]

/-- A character that is a token of its own. -/
theorem run_symbol {c : Char} {t : Token} (h : start c = ([t], between)) (cs : List Char) :
    run between (c :: cs) = t :: run between cs := by
  rw [run_cons, feed, h]
  rfl

/-! ## Words and numerals -/

/-- Text that continues neither a word nor a numeral. -/
def Parted (cs : List Char) : Prop :=
  ∀ c, cs.head? = some c → c.isAlpha = false ∧ Token.isNumeral c = false

theorem parted_nil : Parted [] := by simp [Parted]

theorem parted_cons {c : Char} (ha : c.isAlpha = false) (hn : Token.isNumeral c = false)
    (cs : List Char) : Parted (c :: cs) := by simp_all [Parted]

theorem parted_blanks {bs : List Char} (h : ∀ c ∈ bs, Token.isBlank c = true) {cs : List Char}
    (hc : Parted cs) : Parted (bs ++ cs) := by
  cases bs with
  | nil => exact hc
  | cons b bs =>
    have blank : b = ' ' ∨ b = '\t' ∨ b = '\n' ∨ b = '\r' := by
      simpa [Token.isBlank, or_assoc] using h b (by simp)
    rcases blank with rfl | rfl | rfl | rfl <;> exact parted_cons (by decide) (by decide) _

theorem run_word (before cs : List Char) {rest : List Char} (h : ∀ c ∈ cs, c.isAlpha = true)
    (hr : Parted rest) :
    run (word before) (cs ++ rest) = Token.ofWord (before.reverse ++ cs) :: run between rest := by
  induction cs generalizing before with
  | nil =>
    rw [List.nil_append, List.append_nil]
    cases rest with
    | nil => rfl
    | cons c cs => simp [run_cons, feed, (hr c rfl).1]
  | cons c cs ih =>
    have later : ∀ d ∈ cs, d.isAlpha = true := fun d hd => h d (List.mem_cons_of_mem c hd)
    rw [List.cons_append, run_cons, feed, if_pos (h c (by simp)), ih (c :: before) later]
    simp

theorem run_numeral {cs rest : List Char} (h : ∀ c ∈ cs, Token.isNumeral c = true)
    (hr : Parted rest) (before : List Char) :
    run (numeral before) (cs ++ rest)
      = Token.ofNumeral (before.reverse ++ cs) :: run between rest := by
  induction cs generalizing before with
  | nil =>
    rw [List.nil_append, List.append_nil]
    cases rest with
    | nil => rfl
    | cons c cs => simp [run_cons, feed, (hr c rfl).2]
  | cons c cs ih =>
    have later : ∀ d ∈ cs, Token.isNumeral d = true := fun d hd =>
      h d (List.mem_cons_of_mem c hd)
    rw [List.cons_append, run_cons, feed, if_pos (h c (by simp)), ih later (c :: before)]
    simp

theorem run_null {rest : List Char} (hr : Parted rest) :
    run between ('n' :: 'u' :: 'l' :: 'l' :: rest) = .null :: run between rest :=
  run_word ['n'] ['u', 'l', 'l'] (by simp) hr

theorem run_true {rest : List Char} (hr : Parted rest) :
    run between ('t' :: 'r' :: 'u' :: 'e' :: rest) = .bool true :: run between rest :=
  run_word ['t'] ['r', 'u', 'e'] (by simp) hr

theorem run_false {rest : List Char} (hr : Parted rest) :
    run between ('f' :: 'a' :: 'l' :: 's' :: 'e' :: rest) = .bool false :: run between rest :=
  run_word ['f'] ['a', 'l', 's', 'e'] (by simp) hr

/-- A character that begins a numeral and nothing else. -/
theorem start_of_numeral {c : Char} (h : c.isDigit = true ∨ c = '-') :
    start c = ([], numeral [c]) := by
  rcases h with h | rfl
  · have other : ∀ d : Char, d.isDigit = false → c ≠ d := by
      rintro d hd rfl
      rw [h] at hd
      cases hd
    simp [start, Token.isBlank, h, other ' ', other '\t', other '\n', other '\r', other '[',
      other ']', other '\x7b', other '\x7d', other ':', other ',', other '"']
  · rfl

theorem run_written {cs rest : List Char} (h : Numeral.Written cs) (hr : Parted rest) :
    run between (cs ++ rest) = Token.ofNumeral cs :: run between rest := by
  obtain ⟨c, digits, rfl, hc⟩ := h.head
  rw [List.cons_append, run_cons, feed, start_of_numeral hc]
  exact run_numeral (fun d hd => h.all d (List.mem_cons_of_mem c hd)) hr [c]

/-! ## Strings -/

theorem join?_chars (cs : List Char) : Piece.join? (cs.map Piece.char) = some cs := by
  induction cs with
  | nil => rfl
  | cons c cs ih => rw [List.map_cons, Piece.join?, ih, Option.map_some]

theorem hexValue?_hexDigit : ∀ d < 16, Token.hexValue? (hexDigit d) = some d := by decide

/-- The escape of a character stands for that character. -/
theorem run_escape (c : Char) (ps : List Piece) (rest : List Char) :
    run (string ps) (Json.escape c ++ rest) = run (string (.char c :: ps)) rest := by
  unfold Json.escape
  repeat' split
  all_goals try (subst_vars; rfl)
  · next low =>
    -- the four digits of a control character spell its number
    have high := hexValue?_hexDigit (c.toNat / 16) (by omega)
    have unit := hexValue?_hexDigit (c.toNat % 16) (by omega)
    have number : c.toNat / 16 * 16 + c.toNat % 16 = c.toNat := by omega
    have piece : Piece.ofUnit c.toNat = .char c := by
      rw [Piece.ofUnit, if_neg (by omega), Char.ofNat_toNat]
    have zero : Token.hexValue? '0' = some 0 := by decide
    simp [run_cons, feed, zero, high, unit, number, piece]
  · next quote backslash _ _ _ _ _ high =>
    rw [List.singleton_append, run_cons, feed, if_neg quote, if_neg backslash, if_neg high]
    rfl

theorem run_string (cs : List Char) (ps : List Piece) (rest : List Char) :
    run (string ps) (cs.flatMap Json.escape ++ '"' :: rest)
      = Token.ofPieces (ps.reverse ++ cs.map Piece.char) :: run between rest := by
  induction cs generalizing ps with
  | nil => rw [List.map_nil, List.append_nil]; rfl
  | cons c cs ih =>
    rw [List.flatMap_cons, List.append_assoc, run_escape, ih]
    simp

theorem run_quote (s : String) (rest : List Char) :
    run between (quote s ++ rest) = .string (some s) :: run between rest := by
  have body := run_string s.toList [] rest
  rw [List.reverse_nil, List.nil_append, Token.ofPieces, join?_chars, Option.map_some,
    String.ofList_toList] at body
  rw [quote, List.cons_append, List.append_assoc]
  exact body

end Trellis.Json.Scan
