import GlslLayout.Address
import GlslLayout.Member

/-!
The statements that are written into a shader, and their text.

* `Statement`: an interface declaration with its explicit place.
* `Statement.text`, `Statement.code`: the only place where statements become text.
* `Statement.address?`: the set and binding that a statement occupies.
-/

namespace GlslLayout

set_option autoImplicit false

/-- Whether a varying leaves a stage or enters it. -/
inductive Direction where
  | outgoing
  | incoming
  deriving DecidableEq, Repr

/-- The word for the direction in a declaration. -/
def Direction.word : Direction → String
  | .outgoing => "out"
  | .incoming => "in"

/-- A statement of generated shader text. -/
inductive Statement where
  /-- A vertex attribute. -/
  | vertexInput (location : Nat) (type name : String)
  /-- A global that holds an attribute converted to the type which the shader expects. -/
  | conversion (type name input : String)
  /-- A value handed from the vertex stage to the fragment stage. -/
  | varying (direction : Direction) (location : Nat) (type name : String)
  /-- An output of the fragment stage; `body` is its type and name. -/
  | fragmentOutput (location : Nat) (body : String)
  /-- A uniform block. -/
  | block (address : Address) (members : List Member)
  /-- A texture or a sampler. -/
  | resource (address : Address) (type name : String)
  /-- A name for a texture combined with its sampler. -/
  | combination (name sampler : String)
  deriving DecidableEq, Repr

namespace Statement

/-- The name that a block has from its set. -/
def blockName (set : Nat) : String :=
  "ub_" ++ setName set

/-- The name of the texture behind a combined sampler. -/
def textureName (name : String) : String :=
  name ++ "_texture"

/-- The name of the sampler of a texture. -/
def samplerName (name : String) : String :=
  name ++ "_sampler"

/-- The text of a statement, ending with a line break. -/
def text : Statement → String
  | .vertexInput location type name =>
    "layout(location=" ++ toString location ++ ") in " ++ type ++ " " ++ name ++ ";\n"
  | .conversion type name input =>
    type ++ " " ++ name ++ " = " ++ type ++ "(" ++ input ++ ");\n"
  | .varying direction location type name =>
    "layout(location = " ++ toString location ++ ") " ++ direction.word ++ " " ++ type ++ " " ++
      name ++ ";\n"
  | .fragmentOutput location body =>
    "layout(location = " ++ toString location ++ ") out " ++ body ++ ";\n"
  | .block address members =>
    "layout(set = " ++ toString address.set ++ ", binding = " ++ toString address.binding ++
      ", std140) uniform " ++ blockName address.set ++ " \x7b\n" ++
      Member.lines members ++ "\x7d;\n"
  | .resource address type name =>
    "layout(set = " ++ toString address.set ++ ", binding = " ++ toString address.binding ++
      ") uniform " ++ type ++ " " ++ name ++ ";\n"
  | .combination name sampler =>
    "#define " ++ name ++ " " ++ sampler ++ "(" ++ textureName name ++ ", " ++ samplerName name ++
      ")\n"

/-- The text of statements one after another. -/
def code : List Statement → String
  | [] => ""
  | s :: rest => s.text ++ code rest

theorem code_append (ss ts : List Statement) : code (ss ++ ts) = code ss ++ code ts := by
  induction ss with
  | nil => simp [code]
  | cons s ss ih => simp [code, ih, String.append_assoc]

/-- The set and binding that a statement occupies. -/
def address? : Statement → Option Address
  | .block address _ => some address
  | .resource address _ _ => some address
  | _ => none

end Statement

end GlslLayout
