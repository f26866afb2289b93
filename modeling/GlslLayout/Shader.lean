import GlslLayout.Attribute
import GlslLayout.Source.Stripped
import GlslLayout.Uniform.Merge
import GlslLayout.Uniform.Mesh
import GlslLayout.Varying

/-!
Binding the interface of a whole shader.

* `Shader`: the sources of the two stages and the semantics of the attributes.
* `Interface`: the interface that both sources declare.
* `Shader.bind`: gives every declaration an explicit place; a `Run` holds the outcome and all that
  was reported.
* `Run.log`: the log lines of a run.
-/

namespace GlslLayout

set_option autoImplicit false

/-- A shader in the old interface style. -/
structure Shader where
  label : Option String
  vertex : String
  fragment : String
  semantics : SemanticMap

/-- The label of a shader that has none. -/
def defaultLabel : String := "shader"

/-- A shader with explicit places, and the formats that the host needs to draw with it. -/
structure BoundShader where
  vertex : String
  fragment : String
  mesh : MeshInterface
  attributes : List PlacedAttribute
  vertexVaryings : List PlacedVarying
  fragmentVaryings : List PlacedVarying
  deriving DecidableEq, Repr

/-- What happened when a shader was bound. -/
structure Run where
  diagnostics : Diagnostics
  outcome : Except Failure BoundShader

/-! ## The interface of both stages -/

/-- The interface that two stripped sources declare, bound as far as it can be without failing. -/
structure Interface where
  attributes : AttributeInterface
  vertexVaryings : VaryingInterface
  fragmentVaryings : VaryingInterface
  outputs : List Statement
  uniforms : MergedUniforms

namespace Interface

/-- Reads the interface of two stripped sources. -/
def ofStripped (policy : Policy) (host : Host) (semantics : SemanticMap)
    (vertex fragment : Source.Stripped) : Interface :=
  let vertexVaryings := VertexVaryings.ofLines vertex.varyings
  { attributes := AttributeInterface.ofLines policy host semantics vertex.attributes
    vertexVaryings
    fragmentVaryings := FragmentVaryings.ofLines vertexVaryings.locations fragment.varyings
    outputs := outputStatements fragment.outputs
    uniforms := MergedUniforms.ofStages vertex.uniforms fragment.uniforms }

/-- All reports, in the order of the passes. -/
def reports (i : Interface) : List Diagnostic :=
  i.attributes.reports ++ i.vertexVaryings.reports ++ i.fragmentVaryings.reports ++
    i.uniforms.reports

/-- The declarations of the vertex stage: attributes, varyings and uniforms. -/
def vertexBlock (i : Interface) (uniforms : List Statement) : String :=
  Statement.code i.attributes.statements ++ "\n" ++
    Statement.code (VertexVaryings.statements i.vertexVaryings) ++ "\n" ++
    Statement.code uniforms

/-- The declarations of the fragment stage: varyings, outputs and uniforms. -/
def fragmentBlock (i : Interface) (uniforms : List Statement) : String :=
  Statement.code (FragmentVaryings.statements i.fragmentVaryings) ++ "\n" ++
    Statement.code i.outputs ++ "\n" ++ Statement.code uniforms

end Interface

/-- The reports about declarations of vertex outputs, which are dropped. -/
def vertexOutputReports (vertex : Source.Stripped) : List Diagnostic :=
  vertex.outputs.map fun body => (Problem.vertexOutput body).warning (some .vertex)

/-- Puts generated declarations into a stripped source. -/
def fillStage (stage : Stage) (s : Source.Stripped) (block : String) : Except Failure String :=
  match s.fill? block with
  | none => .error (.noMark stage)
  | some text => .ok text

/-! ## Whole shaders -/

namespace Shader

/-- Finishes two stripped sources with the interface that they declare. The uniforms are bound
first, then the sources are filled, the vertex stage before the fragment stage. -/
def finish (host : Host) (vertex fragment : Source.Stripped) (i : Interface) :
    Except Failure BoundShader := do
  let mesh ← MeshInterface.ofUniforms host i.uniforms.uniforms
  let uniforms := mesh.statements host
  let vertexText ← fillStage .vertex vertex (i.vertexBlock uniforms)
  let fragmentText ← fillStage .fragment fragment (i.fragmentBlock uniforms)
  return {
    vertex := vertexText
    fragment := fragmentText
    mesh
    attributes := i.attributes.placed
    vertexVaryings := i.vertexVaryings.placed
    fragmentVaryings := i.fragmentVaryings.placed }

/-- Gives every interface declaration of a shader an explicit place. Reports are kept when the run
fails too. -/
def bind (policy : Policy) (host : Host) (shader : Shader) : Run :=
  let vertex := Source.strip shader.vertex
  let fragment := Source.strip shader.fragment
  let interface := Interface.ofStripped policy host shader.semantics vertex fragment
  { diagnostics :=
      { label := shader.label.getD defaultLabel
        entries := vertexOutputReports vertex ++ interface.reports }
    outcome := finish host vertex fragment interface }

end Shader

/-! ## The log of a run -/

/-- The line that sums a successful run up. -/
def BoundShader.summary (b : BoundShader) : String :=
  "processed: " ++ toString b.attributes.length ++ " attributes, " ++
    toString b.vertexVaryings.length ++ " varyings, mesh uniforms " ++
    toString ((b.mesh.block.map BlockLayout.byteSize).getD 0) ++ " bytes, " ++
    toString b.mesh.group.textures.length ++ " mesh textures"

/-- The log of a run: its reports, and a summary if it succeeded. -/
def Run.log (run : Run) : List LogEntry :=
  run.diagnostics.log ++
    match run.outcome with
    | .error _ => []
    | .ok bound => [⟨.debug, "[" ++ run.diagnostics.label ++ "] " ++ bound.summary⟩]

end GlslLayout
