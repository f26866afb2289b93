import GlslLayout.BlockLayout
import GlslLayout.Stage

/-!
The failures that stop a run.

* `Failure`: the causes.
* `Failure.message`: their wording.
-/

namespace GlslLayout

set_option autoImplicit false

/-- A cause that stops a run. -/
inductive Failure where
  /-- A uniform has a type that a block cannot hold. -/
  | unknownValueType (type line : String)
  /-- A texture has a sampler type without a known shape. -/
  | unknownSampler (type line : String)
  /-- A source has no place for generated declarations. -/
  | noMark (stage : Stage)
  /-- The host provides something in a set that belongs to the shader. -/
  | reservedSet (set : Nat)
  /-- A uniform block leaves the 32-bit range. -/
  | blockOverflow (overflow : BlockOverflow)
  deriving DecidableEq, Repr

def Failure.message : Failure → String
  | .unknownValueType type line =>
    "uniform type `" ++ type ++ "` is not recognized on line [" ++ line ++ "]"
  | .unknownSampler type line =>
    "sampler type `" ++ type ++ "` has no texture dimension on line [" ++ line ++ "]"
  | .noMark stage =>
    stage.name ++ " source has no declaration to replace with generated bindings"
  | .reservedSet set =>
    "bind group " ++ toString set ++ " is reserved for mesh bindings"
  | .blockOverflow overflow =>
    "uniform buffer does not fit into 4 GiB, overflowing at field `" ++ overflow.member ++ "`"

end GlslLayout
