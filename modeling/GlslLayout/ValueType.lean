import GlslLayout.Alignment

/-!
The types of values that a uniform block can hold.

* `ValueType`: scalars, vectors and square matrices.
* `ValueType.name`, `ValueType.ofName?`: the spelling in shader text, and reading it.
* `ValueType.size`, `ValueType.alignment`, `ValueType.stride`: the std140 measures in bytes.
-/

namespace GlslLayout

set_option autoImplicit false

/-- What one component of a scalar or a vector is. -/
inductive Component where
  | bool
  | int
  | uint
  | float
  deriving DecidableEq, Repr

/-- The number of components of a vector, or of columns of a matrix. -/
inductive Width where
  | two
  | three
  | four
  deriving DecidableEq, Repr

/-- A type of values in a uniform block. Matrices are square and hold floats. -/
inductive ValueType where
  | scalar (component : Component)
  | vector (component : Component) (width : Width)
  | matrix (width : Width)
  deriving DecidableEq, Repr

/-- The word for a scalar of the component. -/
def Component.name : Component → String
  | .bool => "bool"
  | .int => "int"
  | .uint => "uint"
  | .float => "float"

/-- The letter that a vector type has in front; vectors of floats have none. -/
def Component.letter : Component → String
  | .bool => "b"
  | .int => "i"
  | .uint => "u"
  | .float => ""

namespace Width

def toNat : Width → Nat
  | .two => 2
  | .three => 3
  | .four => 4

/-- The digit that ends the name of a vector or matrix type. -/
def digit : Width → String
  | .two => "2"
  | .three => "3"
  | .four => "4"

end Width

namespace ValueType

/-! ## Names -/

/-- The spelling of the type in shader text. -/
def name : ValueType → String
  | .scalar component => component.name
  | .vector component width => component.letter ++ "vec" ++ width.digit
  | .matrix width => "mat" ++ width.digit

def all : List ValueType :=
  let components := [Component.bool, .int, .uint, .float]
  let widths := [Width.two, .three, .four]
  components.map scalar ++ components.flatMap (fun c => widths.map (vector c)) ++
    widths.map matrix

def ofName? (text : String) : Option ValueType :=
  all.find? fun type => type.name == text

theorem mem_all (type : ValueType) : type ∈ all := by
  rcases type with c | ⟨c, w⟩ | w
  · cases c <;> decide
  · cases c <;> cases w <;> decide
  · cases w <;> decide

theorem ofName?_name (type : ValueType) : ofName? type.name = some type := by
  rcases type with c | ⟨c, w⟩ | w
  · cases c <;> decide
  · cases c <;> cases w <;> decide
  · cases w <;> decide

theorem ofName?_eq_some_iff {text : String} {type : ValueType} :
    ofName? text = some type ↔ type.name = text := by
  constructor
  · intro h
    simpa using List.find?_some h
  · rintro rfl
    exact ofName?_name type

/-! ## Measures -/

/-- The bytes that one value takes. A matrix stores each column in 16 bytes. -/
def size : ValueType → Nat
  | .scalar _ => 4
  | .vector _ width => 4 * width.toNat
  | .matrix width => 16 * width.toNat

/-- The alignment of one value. A vector of three is aligned as one of four. -/
def alignment : ValueType → Nat
  | .scalar _ => 4
  | .vector _ .two => 8
  | .vector _ _ => 16
  | .matrix _ => 16

/-- The alignment of an array, of every element in it, and of a whole block. -/
def blockAlignment : Nat := 16

/-- The distance in bytes between neighbouring elements of an array. -/
def stride (type : ValueType) : Nat :=
  alignUp type.size blockAlignment

/-- The stride of the type with the given spelling. A type that a block cannot hold counts with the
least stride there is. -/
def strideOf (text : String) : Nat :=
  ((ofName? text).map stride).getD blockAlignment

end ValueType

end GlslLayout
