import GlslLayout.Proofs.Shader

/-!
What a bound shader keeps of its sources, and when a source has a place for declarations.

* `Source.hasMark_strip_iff`: when a stripped source holds the mark.
* `Source.RewrittenAs`: a source whose first declaration became a block of text, and all others
  nothing.
* `Shader.stages_rewrittenAs`: so it is with both stages of a bound shader.
* `Shader.noMark_iff`: when a run fails because a stage has no place for declarations.
-/

namespace GlslLayout

set_option autoImplicit false

namespace Source

/-! ## The mark in a stripped source -/

theorem isEmpty_strip_iff (source : String) :
    (strip source).isEmpty = true ↔ (segment source.toList).cuts = [] := by
  have hlength := length_declared (segment source.toList).cuts
  simp only [← declarations_eq_declared] at hlength
  rw [← List.length_eq_zero_iff, ← hlength]
  simp only [Stripped.isEmpty, strip, Segmentation.stripped, Bool.and_eq_true, List.isEmpty_iff,
    ← List.length_eq_zero_iff]
  omega

/-- The mark is in a stripped source if something was cut out, or if it stood in the source. -/
theorem hasMark_strip_iff (source : String) :
    (strip source).hasMark = true ↔
      (strip source).isEmpty = false ∨ mark.toList <:+: source.toList := by
  rw [Stripped.hasMark, Text.occurs_iff_infix, toList_text_strip, ← Bool.not_eq_true,
    isEmpty_strip_iff]
  cases hcuts : (segment source.toList).cuts with
  | nil =>
    -- nothing was cut out, so the text is the source itself
    have hsource := source_segment source.toList
    simp only [Segmentation.source, hcuts, List.flatMap_nil, List.append_nil] at hsource
    simp [Segmentation.marked, hcuts, hsource]
  | cons piece cuts =>
    have hmark : mark.toList <:+: (segment source.toList).marked := by
      rw [Segmentation.marked, hcuts]
      exact ⟨(segment source.toList).head, ['\n'] ++ (segment source.toList).tail,
        by simp [markLine]⟩
    simp [hmark]

theorem hasMark_strip_eq_false_iff (source : String) :
    (strip source).hasMark = false ↔
      (strip source).isEmpty = true ∧ ¬ mark.toList <:+: source.toList := by
  rw [← Bool.not_eq_true, hasMark_strip_iff, not_or, Bool.not_eq_false]

/-! ## Rewritten sources -/

/-- The first declaration of the source became `block` and a line break, all others became nothing,
and what stripping keeps in front of them, between them and behind them is kept. -/
def RewrittenAs (source block result : String) : Prop :=
  ∃ kept cut next rest, segment source.toList = ⟨kept, (cut, next) :: rest⟩ ∧
    source.toList =
      kept ++ cut.toList ++ next ++ rest.flatMap (fun piece => piece.1.toList ++ piece.2) ∧
    (strip source).text.toList = kept ++ "@@@\n".toList ++ next ++ rest.flatMap Prod.snd ∧
    result.toList = kept ++ block.toList ++ ['\n'] ++ next ++ rest.flatMap Prod.snd

theorem rewrittenAs_of_fill? {source block result : String}
    (hmark : ¬ mark.toList <:+: source.toList) (h : (strip source).fill? block = some result) :
    RewrittenAs source block result := by
  obtain ⟨before, after, hbreak, rfl⟩ := Stripped.fill?_eq_some_iff.1 h
  have hfound : (strip source).hasMark = true := Option.isSome_iff_exists.2 ⟨_, hbreak⟩
  have hcut : (strip source).isEmpty = false :=
    ((hasMark_strip_iff source).1 hfound).resolve_right hmark
  cases hcuts : (segment source.toList).cuts with
  | nil =>
    rw [(isEmpty_strip_iff source).2 hcuts] at hcut
    cases hcut
  | cons piece rest =>
    have hne : (segment source.toList).cuts ≠ [] := by
      rw [hcuts]
      exact List.cons_ne_nil _ _
    rw [toList_text_strip, breakOn_marked_of_cuts hmark hne] at hbreak
    obtain ⟨rfl, rfl⟩ := Prod.mk.inj (Option.some.inj hbreak)
    have hsource := source_segment source.toList
    refine ⟨(segment source.toList).head, piece.1, piece.2, rest, by rw [← hcuts], ?_, ?_, ?_⟩
    · simpa [Segmentation.source, hcuts] using hsource.symm
    · simp [toList_text_strip, Segmentation.marked, Segmentation.tail, hcuts, markLine, mark]
    · simp [Segmentation.tail, hcuts]

end Source

/-! ## Bound shaders -/

namespace Shader

open Source (strip)

/-- Both stages of a bound shader are its sources with the generated declarations where the first
declaration stood; the uniforms are declared alike in both. -/
theorem stages_rewrittenAs {policy : Policy} {host : Host} {shader : Shader} {bound : BoundShader}
    (hvertex : ¬ "@@@".toList <:+: shader.vertex.toList)
    (hfragment : ¬ "@@@".toList <:+: shader.fragment.toList)
    (hrun : (shader.bind policy host).outcome = .ok bound) :
    Source.RewrittenAs shader.vertex
      (Statement.code (AttributeInterface.ofLines policy host shader.semantics
          (strip shader.vertex).attributes).statements ++ "\n" ++
        Statement.code (VertexVaryings.statements
          (VertexVaryings.ofLines (strip shader.vertex).varyings)) ++ "\n" ++
        Statement.code (bound.mesh.statements host))
      bound.vertex ∧
    Source.RewrittenAs shader.fragment
      (Statement.code (FragmentVaryings.statements (FragmentVaryings.ofLines
          (VertexVaryings.ofLines (strip shader.vertex).varyings).locations
          (strip shader.fragment).varyings)) ++ "\n" ++
        Statement.code (outputStatements (strip shader.fragment).outputs) ++ "\n" ++
        Statement.code (bound.mesh.statements host))
      bound.fragment := by
  obtain ⟨-, hvertexText, hfragmentText, -⟩ := outcome_eq_ok_iff.1 hrun
  constructor
  · exact Source.rewrittenAs_of_fill? hvertex (fillStage_eq_ok_iff.1 hvertexText)
  · exact Source.rewrittenAs_of_fill? hfragment (fillStage_eq_ok_iff.1 hfragmentText)

/-- A shader with pieces of the mark in front of its declarations and behind them. -/
def atShader : Shader where
  label := none
  vertex := "/*@@*/\tuniform float time;@@\nvarying vec2 uv;;@\nvoid main() \x7b\x7d\n"
  fragment := "@@;varying vec2 uv;\n@@ out;\r out vec4 color;"
  semantics := ∅

theorem stages_rewrittenAs_atShader :
    ¬ "@@@".toList <:+: atShader.vertex.toList ∧ ¬ "@@@".toList <:+: atShader.fragment.toList ∧
    ∃ bound, (atShader.bind {} {}).outcome = .ok bound ∧
      bound.fragment = "@@;layout(location = 0) in vec2 uv;\n\nlayout(location = 0) out vec4 color;\n\n" ++
        "layout(set = 2, binding = 0, std140) uniform ub_mesh \x7b\n    float time;\n\x7d;\n\n\n@@ out;\r" ∧
      Source.RewrittenAs atShader.vertex
        (Statement.code (AttributeInterface.ofLines {} {} atShader.semantics
            (strip atShader.vertex).attributes).statements ++ "\n" ++
          Statement.code (VertexVaryings.statements
            (VertexVaryings.ofLines (strip atShader.vertex).varyings)) ++ "\n" ++
          Statement.code (bound.mesh.statements {}))
        bound.vertex ∧
      Source.RewrittenAs atShader.fragment
        (Statement.code (FragmentVaryings.statements (FragmentVaryings.ofLines
            (VertexVaryings.ofLines (strip atShader.vertex).varyings).locations
            (strip atShader.fragment).varyings)) ++ "\n" ++
          Statement.code (outputStatements (strip atShader.fragment).outputs) ++ "\n" ++
          Statement.code (bound.mesh.statements {}))
        bound.fragment := by
  have hvertex : ¬ "@@@".toList <:+: atShader.vertex.toList := by decide +kernel
  have hfragment : ¬ "@@@".toList <:+: atShader.fragment.toList := by decide +kernel
  have hstripVertex : strip atShader.vertex =
      ⟨"/*@@*/@@@\n@@\n@\nvoid main() \x7b\x7d\n", [], ["vec2 uv"], [], ["float time"]⟩ := by
    decide +kernel
  have hstripFragment : strip atShader.fragment =
      ⟨"@@;@@@\n\n@@ out;\r", [], ["vec2 uv"], ["vec4 color"], []⟩ := by
    decide +kernel
  have htext : (atShader.bind {} {}).outcome.toOption.map BoundShader.fragment = some
      ("@@;layout(location = 0) in vec2 uv;\n\nlayout(location = 0) out vec4 color;\n\n" ++
        "layout(set = 2, binding = 0, std140) uniform ub_mesh \x7b\n    float time;\n\x7d;\n\n\n@@ out;\r") := by
    unfold bind
    rw [hstripVertex, hstripFragment]
    decide +kernel
  cases hrun : (atShader.bind {} {}).outcome with
  | error failure =>
    rw [hrun] at htext
    cases htext
  | ok bound =>
    rw [hrun] at htext
    exact ⟨hvertex, hfragment, bound, rfl, Option.some.inj htext,
      stages_rewrittenAs hvertex hfragment hrun⟩

/-! ## Shaders without a place for declarations -/

/-- A stage has a place for declarations if one was cut out of it, or if its source holds the text
of the mark. A run whose uniforms can be bound fails with the first stage that has none. -/
theorem noMark_iff {policy : Policy} {host : Host} {shader : Shader} {mesh : MeshInterface}
    (hmesh : MeshInterface.ofUniforms host (MergedUniforms.ofStages (strip shader.vertex).uniforms
      (strip shader.fragment).uniforms).uniforms = .ok mesh) :
    (∀ source, (strip source).hasMark = true ↔
      (strip source).isEmpty = false ∨ "@@@".toList <:+: source.toList) ∧
    ((shader.bind policy host).outcome = .error (.noMark .vertex) ↔
      (strip shader.vertex).isEmpty = true ∧ ¬ "@@@".toList <:+: shader.vertex.toList) ∧
    ((shader.bind policy host).outcome = .error (.noMark .fragment) ↔
      ((strip shader.vertex).isEmpty = false ∨ "@@@".toList <:+: shader.vertex.toList) ∧
        (strip shader.fragment).isEmpty = true ∧ ¬ "@@@".toList <:+: shader.fragment.toList) := by
  have hfails : ∀ failure, (shader.bind policy host).outcome = .error failure ↔
      (strip shader.vertex).hasMark = false ∧ failure = .noMark .vertex ∨
        (strip shader.vertex).hasMark = true ∧ (strip shader.fragment).hasMark = false ∧
          failure = .noMark .fragment := by
    intro failure
    have huniforms : MeshInterface.ofUniforms host (shader.interface policy host).uniforms.uniforms =
        .ok mesh := hmesh
    rw [outcome_eq_error_iff, huniforms]
    simp
  refine ⟨Source.hasMark_strip_iff, ?_, ?_⟩
  · rw [hfails, ← Source.mark, ← Source.hasMark_strip_eq_false_iff]
    simp
  · rw [hfails, ← Source.mark, ← Source.hasMark_strip_eq_false_iff, ← Source.hasMark_strip_iff]
    simp

/-- A shader whose fragment stage declares something in a comment only. -/
def bareShader : Shader where
  label := none
  vertex := "uniform float time;"
  fragment := "// varying vec2 uv;\nvoid main() \x7b\x7d\n"
  semantics := ∅

theorem noMark_iff_bareShader :
    (∃ mesh, MeshInterface.ofUniforms {} (MergedUniforms.ofStages (strip bareShader.vertex).uniforms
      (strip bareShader.fragment).uniforms).uniforms = .ok mesh) ∧
    (strip bareShader.fragment).isEmpty = true ∧
    (bareShader.bind {} {}).outcome = .error (.noMark .fragment) := by
  have hvertex : (strip bareShader.vertex).isEmpty = false := by decide +kernel
  have hfragment : (strip bareShader.fragment).isEmpty = true := by decide +kernel
  have hmark : ¬ "@@@".toList <:+: bareShader.fragment.toList := by decide +kernel
  have hsome : (MeshInterface.ofUniforms {} (MergedUniforms.ofStages
      (strip bareShader.vertex).uniforms (strip bareShader.fragment).uniforms).uniforms).toOption.isSome =
      true := by
    decide +kernel
  cases hmesh : MeshInterface.ofUniforms {} (MergedUniforms.ofStages
      (strip bareShader.vertex).uniforms (strip bareShader.fragment).uniforms).uniforms with
  | error failure =>
    rw [hmesh] at hsome
    cases hsome
  | ok mesh =>
    exact ⟨⟨mesh, rfl⟩, hfragment, (noMark_iff hmesh).2.2.2 ⟨Or.inl hvertex, hfragment, hmark⟩⟩

/-- A shader whose vertex stage declares nothing and holds the text of the mark in a comment. -/
def commentedMarkShader : Shader where
  label := none
  vertex := "/* @@@ */\nvoid main() \x7b\x7d\n"
  fragment := "uniform float time;\nvoid main() \x7b\x7d\n"
  semantics := ∅

/-- Nothing is cut out of the vertex stage, and yet the declarations are put into its comment. -/
theorem bind_commentedMarkShader :
    (strip commentedMarkShader.vertex).isEmpty = true ∧
    (strip commentedMarkShader.vertex).hasMark = true ∧
    (commentedMarkShader.bind {} {}).outcome.toOption.map BoundShader.vertex =
      some ("/* \n\nlayout(set = 2, binding = 0, std140) uniform ub_mesh \x7b\n    float time;\n\x7d;\n" ++
        " */\nvoid main() \x7b\x7d\n") := by
  decide +kernel

end Shader

end GlslLayout
