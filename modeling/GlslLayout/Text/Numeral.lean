import GlslLayout.Word

/-!
Decimal numerals of 32-bit counts.

* `isNumeral`, `numeralValue`: strings of digits and what they stand for.
* `readCount?`: the value of a numeral, if it is one and fits.
-/

namespace GlslLayout.Text

set_option autoImplicit false

/-- One or more of the digits `0` to `9` and nothing else. -/
def isNumeral (s : List Char) : Bool :=
  !s.isEmpty && s.all Char.isDigit

/-- The number that decimal digits stand for. -/
def numeralValue (digits : List Char) : Nat :=
  Nat.ofDigitChars 10 digits 0

/-- Drops one plus sign at the start. -/
def dropPlus : List Char → List Char
  | '+' :: s => s
  | s => s

/-- Reads a count: a numeral, perhaps with one plus sign in front, whose value fits into a 32-bit
word. Leading zeros are allowed. -/
def readCount? (s : List Char) : Option Nat :=
  if isNumeral (dropPlus s) then inWord? (numeralValue (dropPlus s)) else none

theorem readCount?_eq_some_iff {s : List Char} {n : Nat} :
    readCount? s = some n ↔
      isNumeral (dropPlus s) = true ∧ numeralValue (dropPlus s) = n ∧ n ≤ maxWord := by
  unfold readCount?
  split <;> simp_all [inWord?_eq_some_iff]

end GlslLayout.Text
