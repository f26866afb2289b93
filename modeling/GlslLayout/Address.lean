/-!
Where a resource is bound: a set and a binding in it.

* `Address`: the two numbers.
* `viewSet`, `materialSet`, `meshSet`, `setName`: the sets with a fixed use.
-/

namespace GlslLayout

set_option autoImplicit false

/-- The place of a resource: the index of its bind group and the slot in the group. -/
structure Address where
  set : Nat
  binding : Nat
  deriving DecidableEq, Repr

/-- The set of what changes with the view. -/
def viewSet : Nat := 0

/-- The set of what changes with the material. -/
def materialSet : Nat := 1

/-- The set of what a shader declares for itself. -/
def meshSet : Nat := 2

/-- The name of a set; a set without a fixed use is named by its index. -/
def setName (set : Nat) : String :=
  if set = viewSet then "view"
  else if set = materialSet then "material"
  else if set = meshSet then "mesh"
  else "group" ++ toString set

end GlslLayout
