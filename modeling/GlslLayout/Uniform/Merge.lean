import GlslLayout.Uniform.Reading

/-!
The uniforms of the two stages as one list.

* `distinctLines`: lines that repeat an earlier text are dropped.
* `MergedUniforms`: one uniform for each name, and what is reported about the lines.
* `MergedUniforms.ofStages`: merges the lines of the vertex stage and of the fragment stage.
-/

namespace GlslLayout

set_option autoImplicit false

/-- A line together with the stage that it comes from. -/
structure StageLine where
  stage : Stage
  line : String
  deriving DecidableEq, Repr

/-- Keeps each text once, where it first occurs. -/
def distinctLines : List StageLine → List StageLine
  | [] => []
  | l :: rest => l :: (distinctLines rest).filter fun other => other.line != l.line

/-- The lines of both stages, the vertex stage first. -/
def stageLines (vertex fragment : List String) : List StageLine :=
  vertex.map (StageLine.mk .vertex) ++ fragment.map (StageLine.mk .fragment)

/-- Uniforms with distinct names, and what is reported about their lines. -/
structure MergedUniforms where
  uniforms : List Uniform
  reports : List Diagnostic

namespace MergedUniforms

/-- Adds the uniform of a line. If the name is taken, the earlier declaration stays and the later
one is reported. -/
def add (m : MergedUniforms) (l : StageLine) : MergedUniforms :=
  let reports := m.reports ++ Uniform.reports (some l.stage) l.line
  match Uniform.read? l.line with
  | none => ⟨m.uniforms, reports⟩
  | some u =>
    match m.uniforms.find? fun earlier => earlier.name == u.name with
    | none => ⟨m.uniforms ++ [u], reports⟩
    | some earlier =>
      ⟨m.uniforms,
        reports ++ [(Problem.conflictingUniform earlier.line l.line).error (some l.stage)]⟩

/-- Merges the uniform lines of both stages. A text that both stages declare counts once. -/
def ofStages (vertex fragment : List String) : MergedUniforms :=
  (distinctLines (stageLines vertex fragment)).foldl add ⟨[], []⟩

end MergedUniforms

end GlslLayout
