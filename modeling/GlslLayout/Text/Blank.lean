/-!
White space and the words between it.

* `isBlank`: the Unicode property `White_Space`, as a table of ranges.
* `trim`: a text without the white space at its two ends.
* `words`: the maximal runs of characters that are not white space.
-/

namespace GlslLayout.Text

set_option autoImplicit false

/-- The code points with the property `White_Space`, as closed ranges in increasing order. -/
def blankRanges : List (Nat × Nat) :=
  [(0x9, 0xD), (0x20, 0x20), (0x85, 0x85), (0xA0, 0xA0), (0x1680, 0x1680), (0x2000, 0x200A),
    (0x2028, 0x2029), (0x202F, 0x202F), (0x205F, 0x205F), (0x3000, 0x3000)]

/-- Whether a character has the property `White_Space`. -/
def isBlank (c : Char) : Bool :=
  blankRanges.any fun range => range.1 ≤ c.toNat && c.toNat ≤ range.2

theorem isBlank_of_isWhitespace {c : Char} (h : c.isWhitespace = true) : isBlank c = true := by
  simp only [Char.isWhitespace, Bool.or_eq_true, decide_eq_true_eq] at h
  rcases h with ((rfl | rfl) | rfl) | rfl <;> decide

/-! ## Trimming -/

/-- Drops the white space at the end. -/
def trimEnd (s : List Char) : List Char :=
  (s.reverse.dropWhile isBlank).reverse

/-- Drops the white space at both ends. -/
def trim (s : List Char) : List Char :=
  trimEnd (s.dropWhile isBlank)

/-! ## Words -/

/-- The maximal runs of characters that are not white space, in order. -/
def words (s : List Char) : List (List Char) :=
  (s.splitOnP isBlank).filter fun word => !word.isEmpty

/-- Puts words back on one line with one space between neighbours. -/
def joinWords (ws : List (List Char)) : List Char :=
  [' '].intercalate ws

theorem words_nil : words [] = [] := rfl

theorem ne_nil_of_mem_words {s w : List Char} (h : w ∈ words s) : w ≠ [] := by
  simpa [words] using (List.mem_filter.1 h).2

end GlslLayout.Text
