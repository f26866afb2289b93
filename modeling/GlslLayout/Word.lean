/-!
The range of 32-bit words.

* `maxWord`: the largest number in it.
* `inWord?`: a number, if it lies in the range.
-/

namespace GlslLayout

set_option autoImplicit false

/-- The largest number that a 32-bit word holds. -/
def maxWord : Nat := UInt32.size - 1

theorem maxWord_eq : maxWord = 4294967295 := by decide

/-- The number itself if a 32-bit word holds it. -/
def inWord? (n : Nat) : Option Nat :=
  if n ≤ maxWord then some n else none

theorem inWord?_eq_some_iff {n m : Nat} : inWord? n = some m ↔ n = m ∧ m ≤ maxWord := by
  unfold inWord?
  split <;> simp_all <;> omega

theorem inWord?_eq_none_iff {n : Nat} : inWord? n = none ↔ maxWord < n := by
  simp [inWord?]

end GlslLayout
