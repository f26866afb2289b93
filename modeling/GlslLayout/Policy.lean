/-!
The choices that a caller makes about binding.

* `Policy`: how collisions weigh, and how hidden attributes are named.
-/

namespace GlslLayout

set_option autoImplicit false

/-- The start of the name of a hidden attribute, unless a caller chooses another. -/
def hiddenStart : String := "_private_"

/-- The choices of a caller. -/
structure Policy where
  /-- Two semantics at one location are an error rather than a warning. -/
  strictLocations : Bool := false
  /-- What stands in front of the name of an attribute that is declared with an integer type while
  the shader sees floats. -/
  hiddenStart : String := GlslLayout.hiddenStart
  deriving DecidableEq, Repr

end GlslLayout
