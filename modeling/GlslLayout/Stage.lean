/-!
The two programmable stages, and sets of them.

* `Stage`: vertex or fragment.
* `StageSet`: which stages see a resource, with its coding as two flag bits.
-/

namespace GlslLayout

set_option autoImplicit false

inductive Stage where
  | vertex
  | fragment
  deriving DecidableEq, Repr

/-- The word for a stage in messages. -/
def Stage.name : Stage → String
  | .vertex => "vertex"
  | .fragment => "fragment"

structure StageSet where
  vertex : Bool
  fragment : Bool
  deriving DecidableEq, Repr

namespace StageSet

def all : StageSet := ⟨true, true⟩

/-- Bit 0 stands for the vertex stage and bit 1 for the fragment stage. -/
def toBits (s : StageSet) : Nat :=
  s.vertex.toNat + 2 * s.fragment.toNat

/-- The set that the two lowest bits describe; higher bits are dropped. -/
def ofLowBits (bits : Nat) : StageSet :=
  ⟨bits.testBit 0, bits.testBit 1⟩

/-- The set that the bits describe, if no other bit is set. -/
def ofBits? (bits : Nat) : Option StageSet :=
  if bits < 4 then some (ofLowBits bits) else none

theorem ofLowBits_toBits (s : StageSet) : ofLowBits s.toBits = s := by
  rcases s with ⟨_ | _, _ | _⟩ <;> rfl

theorem ofBits?_toBits (s : StageSet) : ofBits? s.toBits = some s := by
  rcases s with ⟨_ | _, _ | _⟩ <;> rfl

end StageSet

end GlslLayout
