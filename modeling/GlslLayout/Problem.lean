import GlslLayout.Diagnostic
import GlslLayout.Semantic

/-!
The problems that binding can report, each with its kind and its message.

* `Problem`: the causes.
* `Problem.kind`, `Problem.message`: how a cause is reported.
* `Problem.warning`, `Problem.error`: the diagnostic of a cause.
-/

namespace GlslLayout

set_option autoImplicit false

/-- A cause of a diagnostic. -/
inductive Problem where
  /-- The vertex stage declares an output. -/
  | vertexOutput (body : String)
  /-- An attribute lacks its type or its name. -/
  | malformedAttribute (line : String)
  /-- An attribute has no semantic. -/
  | unmappedAttribute (name : String)
  /-- Two attributes of different semantics have one location. -/
  | locationCollision (location : Nat) (previous next : Semantic)
  /-- A varying lacks its type or its name. -/
  | malformedVarying (line : String)
  /-- A varying is declared again in the vertex stage. -/
  | repeatedVarying (name : String) (location : Nat)
  /-- The fragment stage reads a varying that the vertex stage does not write. -/
  | missingVarying (name : String)
  /-- A uniform line holds a comma. -/
  | commaInUniform (line : String)
  /-- A uniform has no type. -/
  | untypedUniform (line : String)
  /-- A uniform has no name. -/
  | unnamedUniform (line : String)
  /-- The name or the brackets of a uniform array cannot be read. -/
  | unreadableArray (line : String)
  /-- A uniform array takes more bytes than a uniform buffer can have. -/
  | arrayTooLarge (count : Nat) (line : String)
  /-- The size of a uniform array is not a positive numeral. -/
  | arraySizeNotNumeral (line : String)
  /-- Two lines declare one uniform name. -/
  | conflictingUniform (first second : String)
  deriving DecidableEq, Repr

namespace Problem

/-- The kind of diagnostic that reports the problem. -/
def kind : Problem → Kind
  | .vertexOutput _ => .ignoredVertexOutput
  | .malformedAttribute _ => .malformedDeclaration
  | .unmappedAttribute _ => .unmappedAttribute
  | .locationCollision _ _ _ => .attributeLocationCollision
  | .malformedVarying _ => .malformedDeclaration
  | .repeatedVarying _ _ => .duplicateVarying
  | .missingVarying _ => .missingVarying
  | .commaInUniform _ => .multipleUniformsPerLine
  | .untypedUniform _ => .malformedDeclaration
  | .unnamedUniform _ => .malformedDeclaration
  | .unreadableArray _ => .malformedDeclaration
  | .arrayTooLarge _ _ => .invalidArraySize
  | .arraySizeNotNumeral _ => .invalidArraySize
  | .conflictingUniform _ _ => .uniformTypeMismatch

/-- The message of the problem. -/
def message : Problem → String
  | .vertexOutput body =>
    "vertex stage output is removed, declare it as a varying: '" ++ body ++ "'"
  | .malformedAttribute line =>
    "attribute declaration needs a type and a name: '" ++ line ++ "'"
  | .unmappedAttribute name =>
    "attribute '" ++ name ++ "' has no semantic and is not bound"
  | .locationCollision location previous next =>
    "two vertex attributes are mapped to the same location " ++ toString location ++
      " in a shader: " ++ previous.name ++ " and " ++ next.name
  | .malformedVarying line =>
    "varying declaration needs a type and a name: '" ++ line ++ "'"
  | .repeatedVarying name location =>
    "varying '" ++ name ++ "' is declared again and keeps location " ++ toString location
  | .missingVarying name =>
    "fragment shader requires varying '" ++ name ++ "' but vertex shader does not generate it"
  | .commaInUniform line =>
    "a comma on a uniform line is not supported, split it into multiple uniforms: '" ++ line ++ "'"
  | .untypedUniform line =>
    "uniform declaration has no type: '" ++ line ++ "'"
  | .unnamedUniform line =>
    "uniform declaration has no name: '" ++ line ++ "'"
  | .unreadableArray line =>
    "uniform array declaration cannot be parsed: '" ++ line ++ "'"
  | .arrayTooLarge count line =>
    "uniform array of " ++ toString count ++
      " elements does not fit into a uniform buffer: '" ++ line ++ "'"
  | .arraySizeNotNumeral line =>
    "only numerically specified uniform array sizes are supported, this uniform is not supported: '"
      ++ line ++ "'"
  | .conflictingUniform first second =>
    "vertex and fragment shaders cannot use the same uniform name with different types: '" ++
      first ++ "' and '" ++ second ++ "'"

/-- The diagnostic of the problem at a severity. -/
def report (p : Problem) (severity : Severity) (stage : Option Stage) : Diagnostic :=
  ⟨severity, p.kind, stage, p.message⟩

/-- The problem as a warning. -/
def warning (p : Problem) (stage : Option Stage) : Diagnostic :=
  p.report .warning stage

/-- The problem as an error. -/
def error (p : Problem) (stage : Option Stage) : Diagnostic :=
  p.report .error stage

end Problem

end GlslLayout
