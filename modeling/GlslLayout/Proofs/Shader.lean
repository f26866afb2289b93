import GlslLayout.Proofs.Mesh
import GlslLayout.Proofs.Source.Refill
import GlslLayout.Shader

/-!
When a shader can be bound, and what the bound shader consists of.

* `Shader.interface`: the interface that a shader is bound with.
* `Shader.outcome_eq_ok_iff`: a run succeeds with a bound shader exactly if the mesh set can be made
  and both sources can be filled, and then the shader is made of these.
* `Shader.outcome_eq_error_iff`: with which failure a run ends otherwise.
* `Shader.uniforms_in_stages`: the declarations of the uniforms stand in both stages.
-/

namespace GlslLayout

set_option autoImplicit false

/-! ## Filling a stage -/

theorem fillStage_eq_ok_iff {stage : Stage} {s : Source.Stripped} {block filled : String} :
    fillStage stage s block = .ok filled ↔ s.fill? block = some filled := by
  unfold fillStage
  cases s.fill? block <;> simp

theorem fillStage_eq_error_iff {stage : Stage} {s : Source.Stripped} {block : String}
    {failure : Failure} :
    fillStage stage s block = .error failure ↔ s.hasMark = false ∧ failure = .noMark stage := by
  unfold fillStage Source.Stripped.fill?
  cases s.hasMark <;> simp [eq_comm]

theorem fillStage_ok_iff {stage : Stage} {s : Source.Stripped} {block : String} :
    (∃ filled, fillStage stage s block = .ok filled) ↔ s.hasMark = true := by
  unfold fillStage Source.Stripped.fill?
  cases s.hasMark <;> simp

theorem exists_of_fillStage {stage : Stage} {s : Source.Stripped} {block filled : String}
    (h : fillStage stage s block = .ok filled) :
    ∃ before after, filled = before ++ block ++ after := by
  obtain ⟨before, after, -, rfl⟩ := Source.Stripped.fill?_eq_some_iff.1 (fillStage_eq_ok_iff.1 h)
  exact ⟨String.ofList before, String.ofList after, by simp [String.append_assoc]⟩

namespace Shader

/-! ## Binding -/

/-- The interface that a shader is bound with. -/
def interface (policy : Policy) (host : Host) (shader : Shader) : Interface :=
  Interface.ofStripped policy host shader.semantics (Source.strip shader.vertex)
    (Source.strip shader.fragment)

theorem finish_eq_ok_iff {host : Host} {vertex fragment : Source.Stripped} {i : Interface}
    {bound : BoundShader} :
    finish host vertex fragment i = .ok bound ↔
      MeshInterface.ofUniforms host i.uniforms.uniforms = .ok bound.mesh ∧
      fillStage .vertex vertex (i.vertexBlock (bound.mesh.statements host)) = .ok bound.vertex ∧
      fillStage .fragment fragment (i.fragmentBlock (bound.mesh.statements host)) =
        .ok bound.fragment ∧
      bound.attributes = i.attributes.placed ∧ bound.vertexVaryings = i.vertexVaryings.placed ∧
      bound.fragmentVaryings = i.fragmentVaryings.placed := by
  unfold finish
  simp only [bind_eq_ok_iff, pure, Except.pure, Except.ok.injEq]
  constructor
  · rintro ⟨mesh, hmesh, vertexText, hvertex, fragmentText, hfragment, rfl⟩
    exact ⟨hmesh, hvertex, hfragment, rfl, rfl, rfl⟩
  · rintro ⟨hmesh, hvertex, hfragment, hattributes, hvaryings, hincoming⟩
    refine ⟨bound.mesh, hmesh, bound.vertex, hvertex, bound.fragment, hfragment, ?_⟩
    rw [← hattributes, ← hvaryings, ← hincoming]

theorem outcome_eq_ok_iff {policy : Policy} {host : Host} {shader : Shader} {bound : BoundShader} :
    (shader.bind policy host).outcome = .ok bound ↔
      MeshInterface.ofUniforms host (shader.interface policy host).uniforms.uniforms =
        .ok bound.mesh ∧
      fillStage .vertex (Source.strip shader.vertex)
        ((shader.interface policy host).vertexBlock (bound.mesh.statements host)) =
        .ok bound.vertex ∧
      fillStage .fragment (Source.strip shader.fragment)
        ((shader.interface policy host).fragmentBlock (bound.mesh.statements host)) =
        .ok bound.fragment ∧
      bound.attributes = (shader.interface policy host).attributes.placed ∧
      bound.vertexVaryings = (shader.interface policy host).vertexVaryings.placed ∧
      bound.fragmentVaryings = (shader.interface policy host).fragmentVaryings.placed :=
  finish_eq_ok_iff

/-- A run fails with the uniforms, then with the vertex stage, then with the fragment stage. -/
theorem outcome_eq_error_iff {policy : Policy} {host : Host} {shader : Shader} {failure : Failure} :
    (shader.bind policy host).outcome = .error failure ↔
      MeshInterface.ofUniforms host (shader.interface policy host).uniforms.uniforms =
        .error failure ∨
      ∃ mesh, MeshInterface.ofUniforms host (shader.interface policy host).uniforms.uniforms =
          .ok mesh ∧
        ((Source.strip shader.vertex).hasMark = false ∧ failure = .noMark .vertex ∨
          (Source.strip shader.vertex).hasMark = true ∧
            (Source.strip shader.fragment).hasMark = false ∧ failure = .noMark .fragment) := by
  show finish host _ _ (shader.interface policy host) = .error failure ↔ _
  unfold finish
  simp only [bind_eq_error_iff, fillStage_eq_error_iff, pure, Except.pure, reduceCtorEq, and_false,
    exists_false, or_false]
  refine or_congr_right (exists_congr fun mesh => and_congr_right fun _ => or_congr_right ?_)
  rw [exists_and_right, fillStage_ok_iff]

theorem uniforms_in_stages {policy : Policy} {host : Host} {shader : Shader} {bound : BoundShader}
    (h : (shader.bind policy host).outcome = .ok bound) :
    ∀ text ∈ [bound.vertex, bound.fragment], ∃ before after,
      text = before ++ Statement.code (bound.mesh.statements host) ++ after := by
  obtain ⟨-, hvertex, hfragment, -⟩ := outcome_eq_ok_iff.1 h
  intro text htext
  rcases List.mem_pair.1 htext with rfl | rfl
  · obtain ⟨before, after, hfilled⟩ := exists_of_fillStage hvertex
    rw [hfilled, Interface.vertexBlock, ← String.append_assoc]
    exact ⟨_, after, rfl⟩
  · obtain ⟨before, after, hfilled⟩ := exists_of_fillStage hfragment
    rw [hfilled, Interface.fragmentBlock, ← String.append_assoc]
    exact ⟨_, after, rfl⟩

end Shader

end GlslLayout
