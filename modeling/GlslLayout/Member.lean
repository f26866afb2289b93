import GlslLayout.ValueType
import GlslLayout.Word

/-!
Members of a uniform block.

* `Extent`: a single value or an array.
* `Member`: a named member with its std140 measures.
-/

namespace GlslLayout

set_option autoImplicit false

/-- A single value, or an array of at least one element. -/
inductive Extent where
  | single
  | array (count : Nat) (pos : 0 < count)
  deriving DecidableEq, Repr

namespace Extent

/-- The number of elements of an array, and zero for a single value. -/
def count : Extent → Nat
  | .single => 0
  | .array n _ => n

/-- The extent with the given count. -/
def ofCount (n : Nat) : Extent :=
  if h : 0 < n then .array n h else .single

def isArray : Extent → Bool
  | .single => false
  | .array _ _ => true

/-- The brackets behind the name of a declared member. -/
def brackets : Extent → String
  | .single => ""
  | .array n _ => "[" ++ toString n ++ "]"

theorem ofCount_count (e : Extent) : ofCount e.count = e := by
  cases e with
  | single => rfl
  | array n h => simp [count, ofCount, h]

theorem count_ofCount (n : Nat) : (ofCount n).count = n := by
  unfold ofCount
  split
  · rfl
  · simp only [count]
    omega

end Extent

structure Member where
  name : String
  type : ValueType
  extent : Extent
  deriving DecidableEq, Repr

namespace Member

/-- The alignment of the member's first byte. -/
def alignment (m : Member) : Nat :=
  match m.extent with
  | .single => m.type.alignment
  | .array _ _ => ValueType.blockAlignment

def byteSize (m : Member) : Nat :=
  match m.extent with
  | .single => m.type.size
  | .array n _ => m.type.stride * n

/-- The bytes that the member takes, if a 32-bit word can say how many. -/
def byteSize? (m : Member) : Option Nat :=
  inWord? m.byteSize

/-- The line that declares the member inside its block. -/
def line (m : Member) : String :=
  "    " ++ m.type.name ++ " " ++ m.name ++ m.extent.brackets ++ ";\n"

/-- The lines that declare the members of a block. -/
def lines : List Member → String
  | [] => ""
  | m :: rest => m.line ++ lines rest

end Member

end GlslLayout
