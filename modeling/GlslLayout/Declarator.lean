import GlslLayout.Text.Blank

/-!
A type and a name, as attributes and varyings are declared.

* `Declarator.read?`: the first two words of a declaration.
* `Declarator.Opens`, `secondWord?`: the same in terms of the words of a line;
  `Declarator.read?_eq_some_iff` and `Declarator.read?_eq_none_iff` say what is read.
-/

namespace GlslLayout

set_option autoImplicit false

structure Declarator where
  type : String
  name : String
  deriving DecidableEq, Repr

/-- Reads the first two words of a declaration; what follows them is ignored. -/
def Declarator.read? (line : String) : Option Declarator :=
  match Text.words line.toList with
  | type :: name :: _ => some ⟨String.ofList type, String.ofList name⟩
  | _ => none

/-! ## In terms of words -/

/-- The second word of a line, if it has two words at least. -/
def secondWord? (line : String) : Option String :=
  (Text.words line.toList)[1]?.map String.ofList

namespace Declarator

/-- The first two words of the line are the type and the name. -/
def Opens (d : Declarator) (line : String) : Prop :=
  ∃ rest, Text.words line.toList = d.type.toList :: d.name.toList :: rest

theorem read?_eq_some_iff {line : String} {d : Declarator} :
    read? line = some d ↔ d.Opens line := by
  unfold read? Opens
  constructor
  · intro h
    split at h
    · next type name rest hwords =>
      obtain rfl := Option.some.inj h
      exact ⟨rest, by simp [hwords]⟩
    · cases h
  · rintro ⟨rest, hwords⟩
    simp [hwords]

theorem read?_eq_none_iff {line : String} :
    read? line = none ↔ (Text.words line.toList).length < 2 := by
  unfold read?
  split
  · next hwords => simp [hwords]
  · next hfew =>
    simp only [true_iff]
    cases hwords : Text.words line.toList with
    | nil => simp
    | cons type rest =>
      cases rest with
      | nil => simp
      | cons name rest => exact absurd hwords (hfew type name rest)

theorem secondWord?_of_read? {line : String} {d : Declarator} (h : read? line = some d) :
    secondWord? line = some d.name := by
  obtain ⟨rest, hwords⟩ := read?_eq_some_iff.1 h
  simp [secondWord?, hwords]

theorem secondWord?_of_none {line : String} (h : read? line = none) : secondWord? line = none := by
  have hfew := read?_eq_none_iff.1 h
  rw [secondWord?, List.getElem?_eq_none (by omega), Option.map_none]

end Declarator

end GlslLayout
