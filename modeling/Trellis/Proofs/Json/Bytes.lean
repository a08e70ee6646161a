import Trellis.Json.Nesting

/-!
# The bracket count over bytes

The count may as well be taken byte by byte.  What it looks at are ASCII characters, and no byte of
any other character is one, so such a character is passed over, whole or in its bytes
(`runBytes_utf8Encode`).
-/

namespace Trellis.Json.Nesting

/-- One more byte. -/
def feedByte (n : Nesting) (b : UInt8) : Nesting :=
  match n.quoted with
  | some true => { n with quoted := some false }
  | some false =>
    if b = 0x5C then { n with quoted := some true }
    else if b = 0x22 then { n with quoted := none }
    else n
  | none =>
    if b = 0x22 then { n with quoted := some false }
    else if b = 0x7B ∨ b = 0x5B then
      { n with depth := n.depth + 1, deepest := max n.deepest (n.depth + 1) }
    else if b = 0x7D ∨ b = 0x5D then { n with depth := n.depth - 1 }
    else n

/-- The bytes of a whole text. -/
def runBytes (n : Nesting) (bs : List UInt8) : Nesting := bs.foldl feedByte n

theorem runBytes_append (n : Nesting) (bs ds : List UInt8) :
    n.runBytes (bs ++ ds) = (n.runBytes bs).runBytes ds := List.foldl_append

/-- The single byte of an ASCII character is counted as the character. -/
theorem feedByte_ascii (n : Nesting) {c : Char} (small : c.toNat ≤ 127) :
    n.feedByte (UInt8.ofNat c.toNat) = n.feed c := by
  have same (d : Char) (hd : d.toNat ≤ 127) :
      UInt8.ofNat c.toNat = UInt8.ofNat d.toNat ↔ c = d := by
    rw [← UInt8.toNat_inj, UInt8.toNat_ofNat', UInt8.toNat_ofNat', ← Char.toNat_inj]
    omega
  have backslash : UInt8.ofNat c.toNat = 0x5C ↔ c = '\\' := same '\\' (by decide)
  have quote : UInt8.ofNat c.toNat = 0x22 ↔ c = '"' := same '"' (by decide)
  have openObject : UInt8.ofNat c.toNat = 0x7B ↔ c = '\x7b' := same '\x7b' (by decide)
  have openArray : UInt8.ofNat c.toNat = 0x5B ↔ c = '[' := same '[' (by decide)
  have closeObject : UInt8.ofNat c.toNat = 0x7D ↔ c = '\x7d' := same '\x7d' (by decide)
  have closeArray : UInt8.ofNat c.toNat = 0x5D ↔ c = ']' := same ']' (by decide)
  obtain ⟨depth, deepest, _ | _ | _⟩ := n <;>
    simp only [feedByte, feed, backslash, quote, openObject, openArray, closeObject, closeArray]

/-- The count behind a character that is passed over: no longer behind a backslash. -/
def pass (n : Nesting) : Nesting := { n with quoted := n.quoted.map fun _ => false }

theorem feed_beyond (n : Nesting) {c : Char} (large : 127 < c.toNat) : n.feed c = n.pass := by
  have other (d : Char) (hd : d.toNat ≤ 127) : c ≠ d := by
    rintro rfl
    omega
  obtain ⟨depth, deepest, _ | _ | _⟩ := n <;>
    simp [feed, pass, other '\\' (by decide), other '"' (by decide), other '\x7b' (by decide),
      other '[' (by decide), other '\x7d' (by decide), other ']' (by decide)]

theorem feedByte_beyond (n : Nesting) {b : UInt8} (large : 127 < b.toNat) :
    n.feedByte b = n.pass := by
  have other (d : UInt8) (hd : d.toNat ≤ 127) : b ≠ d := by
    rintro rfl
    omega
  obtain ⟨depth, deepest, _ | _ | _⟩ := n <;>
    simp [feedByte, pass, other 0x5C (by decide), other 0x22 (by decide), other 0x7B (by decide),
      other 0x5B (by decide), other 0x7D (by decide), other 0x5D (by decide)]

theorem pass_pass (n : Nesting) : n.pass.pass = n.pass := by
  obtain ⟨depth, deepest, _ | _⟩ := n <;> rfl

theorem runBytes_beyond {bs : List UInt8} (some : bs ≠ []) (large : ∀ b ∈ bs, 127 < b.toNat)
    (n : Nesting) : n.runBytes bs = n.pass := by
  induction bs generalizing n with
  | nil => exact absurd rfl some
  | cons b bs ih =>
    rw [List.forall_mem_cons] at large
    show (n.feedByte b).runBytes bs = n.pass
    rw [feedByte_beyond n large.1]
    cases bs with
    | nil => rfl
    | cons d bs => rw [ih (List.cons_ne_nil d bs) large.2, pass_pass]

/-- Every byte of a character beyond ASCII is beyond ASCII. -/
theorem large_of_mem_utf8EncodeChar {c : Char} (large : 127 < c.toNat) :
    String.utf8EncodeChar c ≠ [] ∧ ∀ b ∈ String.utf8EncodeChar c, 127 < b.toNat := by
  have beyond : ¬ c.val.toNat ≤ 127 := Nat.not_le.2 large
  unfold String.utf8EncodeChar
  dsimp only
  rw [if_neg beyond]
  repeat' split
  all_goals
    refine ⟨by simp, ?_⟩
    simp only [List.forall_mem_cons, UInt8.toNat_ofNat', List.not_mem_nil, false_implies,
      implies_true, and_true]
    omega

/-- **A character is counted as its bytes are.** -/
theorem runBytes_utf8EncodeChar (n : Nesting) (c : Char) :
    n.runBytes (String.utf8EncodeChar c) = n.feed c := by
  by_cases small : c.toNat ≤ 127
  · have single : String.utf8EncodeChar c = [UInt8.ofNat c.toNat] := if_pos small
    rw [single]
    exact feedByte_ascii n small
  · obtain ⟨some, large⟩ := large_of_mem_utf8EncodeChar (Nat.not_le.1 small)
    rw [runBytes_beyond some large, feed_beyond n (Nat.not_le.1 small)]

theorem runBytes_utf8Encode (n : Nesting) (cs : List Char) :
    n.runBytes (cs.flatMap String.utf8EncodeChar) = n.run cs := by
  induction cs generalizing n with
  | nil => rfl
  | cons c cs ih => rw [List.flatMap_cons, runBytes_append, runBytes_utf8EncodeChar, ih, run_cons]

end Trellis.Json.Nesting
