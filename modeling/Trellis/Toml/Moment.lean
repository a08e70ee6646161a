import Trellis.Json.Numeral

/-!
# Dates and times

A moment is a date, a time of day, or both behind one another.  Moments are told apart from faults
and not kept, so each function here is given a text and says what follows in it.
-/

namespace Trellis.Toml.Moment

/-- The value of exactly `n` decimal digits, and the rest. -/
def fixed? (n : Nat) (cs : List Char) : Option (Nat × List Char) :=
  if (cs.take n).length = n ∧ (cs.take n).all Char.isDigit then
    some (Json.Numeral.value (cs.take n), cs.drop n)
  else none

/-- The rest behind a character. -/
def behind? (c : Char) : List Char → Option (List Char)
  | d :: cs => if d = c then some cs else none
  | [] => none

def daysIn (year month : Nat) : Nat :=
  if month = 2 then
    if year % 4 = 0 ∧ (year % 100 ≠ 0 ∨ year % 400 = 0) then 29 else 28
  else if month = 4 ∨ month = 6 ∨ month = 9 ∨ month = 11 then 30
  else 31

/-- What follows a date. -/
def behindDate? (cs : List Char) : Option (List Char) := do
  let (year, cs) ← fixed? 4 cs
  let (month, cs) ← (behind? '-' cs).bind (fixed? 2)
  let (day, cs) ← (behind? '-' cs).bind (fixed? 2)
  if 1 ≤ month ∧ month ≤ 12 ∧ 1 ≤ day ∧ day ≤ daysIn year month then return cs
  else none

/-- What follows the parts of a second. -/
def behindParts? : List Char → Option (List Char)
  | '.' :: cs =>
    if (cs.takeWhile Char.isDigit).isEmpty then none else some (cs.dropWhile Char.isDigit)
  | cs => some cs

/-- What follows the seconds of a time, which may be left out. -/
def behindSeconds? : List Char → Option (List Char)
  | ':' :: cs => do
    let (second, cs) ← fixed? 2 cs
    if second ≤ 60 then behindParts? cs else none
  | cs => some cs

/-- What follows hours and minutes. -/
def behindClock? (cs : List Char) : Option (List Char) := do
  let (hour, cs) ← fixed? 2 cs
  let (minute, cs) ← (behind? ':' cs).bind (fixed? 2)
  if hour ≤ 23 ∧ minute ≤ 59 then return cs else none

/-- What follows a time of day. -/
def behindTime? (cs : List Char) : Option (List Char) := (behindClock? cs).bind behindSeconds?

/-- An offset from universal time, or none at all. -/
def isOffset : List Char → Bool
  | [] => true
  | ['Z'] => true
  | ['z'] => true
  | c :: cs => (c = '+' || c = '-') && behindClock? cs == some []

/-- A date, a time, or a date with a time behind a letter or a space. -/
def isWritten (cs : List Char) : Bool :=
  match behindDate? cs with
  | some [] => true
  | some (c :: rest) =>
    (c = 'T' || c = 't' || c = ' ')
      && match behindTime? rest with
        | some rest => isOffset rest
        | none => false
  | none => behindTime? cs == some []

end Trellis.Toml.Moment
