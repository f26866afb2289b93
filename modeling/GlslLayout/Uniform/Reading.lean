import GlslLayout.Problem
import GlslLayout.Text.Blank
import GlslLayout.Text.Numeral
import GlslLayout.Text.Search
import GlslLayout.Uniform.Basic

/-!
Reading uniforms from the lines of a shader.

* `Uniform.Fault`: why a line declares no uniform.
* `Uniform.read`: reads one declaration; a `Reading` holds the uniform or the fault.
* `Uniform.reports`: what is reported about a line.
-/

namespace GlslLayout

set_option autoImplicit false

namespace Uniform

/-- Why a line declares no uniform. -/
inductive Fault where
  | noType
  | noName
  | unreadableArray
  | arrayTooLarge (count : Nat)
  | sizeNotNumeral
  deriving DecidableEq, Repr

/-- The problem that a fault of a line is reported as. -/
def Fault.problem (line : String) : Fault → Problem
  | .noType => .untypedUniform line
  | .noName => .unnamedUniform line
  | .unreadableArray => .unreadableArray line
  | .arrayTooLarge count => .arrayTooLarge count line
  | .sizeNotNumeral => .arraySizeNotNumeral line

/-! ## Names and arrays -/

/-- The characters of the name of an array. -/
def isArrayNameChar (c : Char) : Bool :=
  c.isAlphanum || c == '_' || c == '-'

/-- Splits `name [size]` into the name and the text of the size. The name has to be a word, and a
closing bracket has to follow the opening one. -/
def bracketed? (text : List Char) : Option (List Char × List Char) :=
  let name := Text.trim (text.takeWhile (· != '['))
  let inner := (text.dropWhile (· != '[')).drop 1
  if name.isEmpty || !name.all isArrayNameChar || !inner.contains ']' then none
  else some (name, Text.trim (inner.takeWhile (· != ']')))

/-- The extent of an array of `type` whose size is written as `size`. All its elements together
have to stay in the 32-bit range. -/
def readExtent (type : String) (size : List Char) : Except Fault Extent :=
  match Text.readCount? size with
  | none => .error .sizeNotNumeral
  | some n =>
    if h : 0 < n then
      match inWord? (ValueType.strideOf type * n) with
      | none => .error (.arrayTooLarge n)
      | some _ => .ok (.array n h)
    else .error .sizeNotNumeral

/-- Reads what follows the type: a name, perhaps with brackets. A single name ends at the first
space or comma. -/
def readDeclarator (type : String) (text : List Char) : Except Fault (List Char × Extent) :=
  if text.contains '[' then
    match bracketed? text with
    | none => .error .unreadableArray
    | some (name, size) =>
      match readExtent type size with
      | .error fault => .error fault
      | .ok extent => .ok (name, extent)
  else
    match text.takeWhile fun c => c != ' ' && c != ',' with
    | [] => .error .noName
    | c :: name => .ok (c :: name, .single)

/-! ## Lines -/

/-- The words of a line, with a precision in front taken off. -/
def splitPrecision : List (List Char) → Option Precision × List (List Char)
  | [] => (none, [])
  | word :: rest =>
    match Precision.ofName? (String.ofList word) with
    | some p => (some p, rest)
    | none => (none, word :: rest)

/-- What was found on a line. -/
structure Reading where
  /-- A comma on a line with a type is reported, whatever else is found. -/
  comma : Bool
  result : Except Fault Uniform

/-- Whether a piece of text occurs in a type name. -/
def typeContains (type piece : String) : Bool :=
  Text.occurs piece.toList type.toList

/-- Reads the declaration of a uniform: a precision if there is one, a type, a name, and brackets if
it is an array. A type that names a sampler makes the uniform a texture. -/
def read (line : String) : Reading :=
  match splitPrecision (Text.words line.toList) with
  | (_, []) => ⟨false, .error .noType⟩
  | (precision, word :: rest) =>
    let type := String.ofList word
    { comma := line.toList.contains ','
      result :=
        match readDeclarator type (Text.joinWords rest) with
        | .error fault => .error fault
        | .ok (name, extent) =>
          .ok {
            line, precision, type, extent
            name := String.ofList name
            isSampler := typeContains type "sampler"
            isSigned := typeContains type "isampler"
            isUnsigned := typeContains type "usampler" } }

/-- The uniform of a line, if it declares one. -/
def read? (line : String) : Option Uniform :=
  match (read line).result with
  | .error _ => none
  | .ok u => some u

/-- What is reported about a line: first a comma, then the fault. -/
def reports (stage : Option Stage) (line : String) : List Diagnostic :=
  let reading := read line
  (if reading.comma then [(Problem.commaInUniform line).error stage] else []) ++
    match reading.result with
    | .error fault => [(fault.problem line).error stage]
    | .ok _ => []

end Uniform

end GlslLayout
