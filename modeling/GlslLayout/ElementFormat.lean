/-!
The stored form of vertex elements.

* `ComponentFormat`: how one component is stored.
* `ElementFormat`: how an element is stored and fetched.
* `ElementFormat.needsConversion`: whether a shader has to convert what it fetches.
-/

namespace GlslLayout

set_option autoImplicit false

/-- The width of a stored integer. -/
inductive IntWidth where
  | bits8
  | bits16
  | bits32
  deriving DecidableEq, Repr

/-- How one component of a vertex element is stored. -/
inductive ComponentFormat where
  | signed (width : IntWidth)
  | unsigned (width : IntWidth)
  | float16
  | float32
  deriving DecidableEq, Repr

namespace ComponentFormat

def isFloat : ComponentFormat → Bool
  | .float16 | .float32 => true
  | _ => false

def isSigned : ComponentFormat → Bool
  | .signed _ => true
  | _ => false

end ComponentFormat

/-- The stored form of a vertex element. -/
structure ElementFormat where
  component : ComponentFormat
  /-- Integers are mapped to the unit range when they are fetched. -/
  normalized : Bool
  /-- The shader declares the attribute with an integer type itself. -/
  asInteger : Bool
  deriving DecidableEq, Repr

/-- Whether the shader has to read integers where it declares floats: stored integers arrive as
integers unless they are normalized, and a shader that asks for integers needs no help. -/
def ElementFormat.needsConversion (element : ElementFormat) : Bool :=
  !element.component.isFloat && !element.normalized && !element.asInteger

end GlslLayout
