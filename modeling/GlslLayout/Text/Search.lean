/-!
The first occurrence of a pattern in a text.

* `breakOn`: the text before and after the first occurrence.
* `occurs`: whether there is one.
* `replaceFirst`: the text with the first occurrence exchanged for another text.
-/

namespace GlslLayout.Text

set_option autoImplicit false

/-- The text before and the text after the first occurrence of `pattern`, or nothing if it does
not occur. -/
def breakOn (pattern : List Char) : List Char → Option (List Char × List Char)
  | [] => if pattern.isEmpty then some ([], []) else none
  | c :: s =>
    if pattern.isPrefixOf (c :: s) then some ([], (c :: s).drop pattern.length)
    else (breakOn pattern s).map fun parts => (c :: parts.1, parts.2)

/-- Whether `pattern` occurs in the text. -/
def occurs (pattern s : List Char) : Bool :=
  (breakOn pattern s).isSome

/-- The text with the first occurrence of `pattern` exchanged for `insertion`; unchanged if there
is none. -/
def replaceFirst (pattern insertion s : List Char) : List Char :=
  match breakOn pattern s with
  | none => s
  | some (before, after) => before ++ insertion ++ after

/-! ## What breaking keeps -/

theorem eq_of_breakOn {pattern s before after : List Char}
    (h : breakOn pattern s = some (before, after)) : s = before ++ pattern ++ after := by
  induction s generalizing before after with
  | nil =>
    cases pattern with
    | nil => simp_all [breakOn]
    | cons _ _ => simp [breakOn] at h
  | cons c s ih =>
    rw [breakOn] at h
    split at h
    · next hp =>
      obtain ⟨tail, ht⟩ := List.isPrefixOf_iff_prefix.1 hp
      rw [← ht, List.drop_left] at h
      obtain ⟨rfl, rfl⟩ := Prod.mk.inj (Option.some.inj h)
      simp [ht]
    · obtain ⟨parts, hparts, heq⟩ := Option.map_eq_some_iff.1 h
      obtain ⟨rfl, rfl⟩ := Prod.mk.inj heq
      simp [ih hparts]

end GlslLayout.Text
