import GlslLayout.Member

/-!
Uniforms as a shader declares them.

* `Precision`: the precision qualifiers.
* `Uniform`: a declared uniform, a value or a texture.
-/

namespace GlslLayout

set_option autoImplicit false

/-! ## Precision -/

/-- A precision qualifier. -/
inductive Precision where
  | low
  | medium
  | high
  deriving DecidableEq, Repr

namespace Precision

/-- The word in shader text. -/
def name : Precision → String
  | .low => "lowp"
  | .medium => "mediump"
  | .high => "highp"

/-- The precision with the given word. -/
def ofName? (text : String) : Option Precision :=
  [low, medium, high].find? fun p => p.name == text

theorem ofName?_eq_some_iff {text : String} {p : Precision} :
    ofName? text = some p ↔ p.name = text := by
  constructor
  · intro h
    simpa using List.find?_some h
  · rintro rfl
    cases p <;> decide

end Precision

/-! ## Uniforms -/

/-- A declared uniform. -/
structure Uniform where
  /-- The declaration as it was written. -/
  line : String
  precision : Option Precision
  type : String
  name : String
  extent : Extent
  /-- A texture rather than a value. -/
  isSampler : Bool
  /-- The texture holds signed integers. -/
  isSigned : Bool
  /-- The texture holds unsigned integers. -/
  isUnsigned : Bool
  deriving DecidableEq, Repr

end GlslLayout
