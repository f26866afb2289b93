/-!
Rounding up to an alignment.

* `alignUp`: the least multiple of an alignment that is not below a number.
* `le_alignUp`, `alignUp_mod`, `alignUp_lt`: it is not below, a multiple, and less than one
  alignment above.
-/

namespace GlslLayout

set_option autoImplicit false

/-- The least multiple of `alignment` that is not below `n`. -/
def alignUp (n alignment : Nat) : Nat :=
  if n % alignment = 0 then n else n + (alignment - n % alignment)

theorem le_alignUp (n a : Nat) : n ≤ alignUp n a := by
  unfold alignUp
  split <;> omega

theorem alignUp_mod {a : Nat} (ha : 0 < a) (n : Nat) : alignUp n a % a = 0 := by
  unfold alignUp
  split
  · assumption
  · have hlt := Nat.mod_lt n ha
    have hdiv := Nat.div_add_mod n a
    have hnext : n + (a - n % a) = a * (n / a + 1) := by
      rw [Nat.mul_add, Nat.mul_one]
      omega
    rw [hnext, Nat.mul_mod_right]

theorem alignUp_lt {a : Nat} (ha : 0 < a) (n : Nat) : alignUp n a < n + a := by
  unfold alignUp
  split <;> omega

end GlslLayout
