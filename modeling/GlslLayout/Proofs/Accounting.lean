import GlslLayout.Proofs.Attribute
import GlslLayout.Proofs.Shader
import GlslLayout.Proofs.VaryingLocations

/-!
In a run without errors every declaration of both stages is bound or reported.

* `NoErrors`: reports that hold no error.
* `MergedUniforms.foldl_add_of_noErrors`, `VertexVaryings.ofLines_of_noErrors`,
  `FragmentVaryings.foldl_add_of_noErrors`: what a pass without errors has done with each line.
* `Shader.AccountedFor`: what became of every declaration of a shader.
* `Shader.accountedFor_of_not_failed`: a run that has not failed accounts for all of them.
-/

namespace GlslLayout

set_option autoImplicit false

/-! ## Reports without errors -/

/-- No report is an error. -/
def NoErrors (reports : List Diagnostic) : Prop :=
  ∀ d ∈ reports, d.severity ≠ .error

theorem noErrors_append_iff {rs ts : List Diagnostic} :
    NoErrors (rs ++ ts) ↔ NoErrors rs ∧ NoErrors ts := by
  simp only [NoErrors, List.mem_append, or_imp, forall_and]

theorem not_noErrors_error {rs : List Diagnostic} {problem : Problem} {stage : Option Stage} :
    ¬ NoErrors (rs ++ [problem.error stage]) := by
  intro h
  exact h (problem.error stage) (by simp) rfl

/-- Where each line is reported behind the earlier ones, none of the lines has an error. -/
theorem NoErrors.of_flatMapEarlier {f : List String → String → List Diagnostic}
    {lines : List String} (h : NoErrors (flatMapEarlier f lines)) {line : String}
    (hline : line ∈ lines) : ∃ earlier, NoErrors (f earlier line) := by
  obtain ⟨i, hi⟩ := List.mem_iff_getElem?.1 hline
  exact ⟨lines.take i, fun r hr => h r (mem_flatMapEarlier.2 ⟨line, i, hi, hr⟩)⟩

theorem Diagnostics.failed_eq_false_iff {ds : Diagnostics} :
    ds.failed = false ↔ NoErrors ds.entries := by
  simp [Diagnostics.failed, NoErrors]

/-! ## Uniforms -/

namespace MergedUniforms

theorem add_of_noErrors {m : MergedUniforms} {l : StageLine} (h : NoErrors (m.add l).reports) :
    ∃ u, u.line = l.line ∧ m.add l = ⟨m.uniforms ++ [u], m.reports⟩ := by
  have hquiet : NoErrors (Uniform.reports (some l.stage) l.line) →
      Uniform.reports (some l.stage) l.line = [] := by
    intro hno
    rw [List.eq_nil_iff_forall_not_mem]
    exact fun d hd => hno d hd (Uniform.severity_of_mem_reports hd)
  rcases add_cases m l with ⟨hread, hadd⟩ | ⟨u, hread, -, hadd⟩ | ⟨u, earlier, -, -, -, hadd⟩
  · -- a line that declares nothing is reported
    rw [hadd] at h
    obtain ⟨u, hu⟩ := Uniform.reports_eq_nil_iff.1 (hquiet (noErrors_append_iff.1 h).2)
    rw [Uniform.read?_of_read hu rfl] at hread
    cases hread
  · rw [hadd] at h
    refine ⟨u, line_of_read? hread, ?_⟩
    rw [hadd, hquiet (noErrors_append_iff.1 h).2, List.append_nil]
  · rw [hadd] at h
    exact absurd h not_noErrors_error

theorem foldl_add_of_noErrors {m : MergedUniforms} {ls : List StageLine}
    (h : NoErrors (ls.foldl add m).reports) :
    (ls.foldl add m).reports = m.reports ∧
      (ls.foldl add m).uniforms.map Uniform.line =
        m.uniforms.map Uniform.line ++ ls.map StageLine.line := by
  induction ls generalizing m with
  | nil => exact ⟨rfl, by simp⟩
  | cons l ls ih =>
    rw [List.foldl_cons] at h ⊢
    obtain ⟨hreports, hlines⟩ := ih h
    rw [hreports] at h
    obtain ⟨u, hline, hadd⟩ := add_of_noErrors h
    rw [hreports, hlines, hadd]
    exact ⟨rfl, by simp [hline]⟩

theorem ofStages_of_noErrors {vertex fragment : List String}
    (h : NoErrors (ofStages vertex fragment).reports) :
    (ofStages vertex fragment).reports = [] ∧
      ∀ line ∈ vertex ++ fragment,
        ((ofStages vertex fragment).uniforms.map Uniform.line).count line = 1 := by
  obtain ⟨hreports, hlines⟩ := foldl_add_of_noErrors h
  refine ⟨hreports, fun line hline => ?_⟩
  have hmem : line ∈ (stageLines vertex fragment).map StageLine.line := by
    simpa [stageLines, Function.comp_def] using hline
  rw [ofStages, hlines]
  exact List.count_eq_one_of_mem (nodup_map_distinctLines _) (mem_map_distinctLines hmem)

end MergedUniforms

/-! ## Varyings -/

namespace VertexVaryings

/-- Without errors every line declares a name that is bound, and at most a repeated name is
reported. -/
theorem ofLines_of_noErrors {lines : List String} (h : NoErrors (ofLines lines).reports) :
    (∀ line ∈ lines, ∃ d, Declarator.Opens d line ∧
      d.name ∈ (ofLines lines).placed.map PlacedVarying.name) ∧
    ∀ r ∈ (ofLines lines).reports, r.kind = .duplicateVarying := by
  have hlines := reflects_ofLines lines
  rw [hlines.reports] at h ⊢
  constructor
  · intro line hline
    cases hread : Declarator.read? line with
    | none =>
      obtain ⟨earlier, hquiet⟩ := h.of_flatMapEarlier hline
      rw [lineReports, Declarator.secondWord?_of_none hread] at hquiet
      exact absurd rfl (hquiet _ (List.mem_singleton_self _))
    | some d =>
      refine ⟨d, Declarator.read?_eq_some_iff.1 hread, ?_⟩
      rw [hlines.names]
      exact mem_firstNames.2 ⟨line, hline, Declarator.secondWord?_of_read? hread⟩
  · intro r hr
    have hsevere := h r hr
    obtain ⟨line, i, -, hr⟩ := mem_flatMapEarlier.1 hr
    unfold lineReports at hr
    split at hr
    · obtain rfl := List.mem_singleton.1 hr
      exact absurd rfl hsevere
    · split at hr
      · rw [List.mem_singleton.1 hr]
      · cases hr

end VertexVaryings

namespace FragmentVaryings

/-- Without errors every line is bound, in order, and nothing is reported. -/
theorem foldl_add_of_noErrors {v : VaryingInterface} {lines : List String}
    (h : NoErrors (lines.foldl add v).reports) :
    (lines.foldl add v).reports = v.reports ∧
      ∃ bound, (lines.foldl add v).placed = v.placed ++ bound ∧
        List.Forall₂ (fun line b => Declarator.Opens ⟨b.type, b.name⟩ line) lines bound := by
  induction lines generalizing v with
  | nil => exact ⟨rfl, [], by simp, .nil⟩
  | cons line lines ih =>
    rw [List.foldl_cons] at h ⊢
    obtain ⟨hreports, bound, hbound, hlines⟩ := ih h
    rw [hreports] at h
    rcases add_cases v line with ⟨-, hline⟩ | ⟨d, -, -, hline⟩ | ⟨d, location, hread, -, hline⟩
    · rw [hline] at h
      exact absurd h not_noErrors_error
    · rw [hline] at h
      exact absurd h not_noErrors_error
    · rw [hreports, hbound, hline]
      exact ⟨rfl, ⟨d.name, d.type, location⟩ :: bound, by simp [VaryingInterface.bind],
        .cons (Declarator.read?_eq_some_iff.1 hread) hlines⟩

end FragmentVaryings

/-! ## Attributes and outputs -/

theorem read?_of_noErrors {policy : Policy} {host : Host} {semantics : SemanticMap}
    {lines : List String}
    (h : NoErrors (AttributeInterface.ofLines policy host semantics lines).reports) :
    ∀ line ∈ lines, ∃ d, Declarator.read? line = some d := by
  intro line hline
  rcases AttributeLine.read_cases semantics line with
    ⟨-, hread⟩ | ⟨d, hd, -, -⟩ | ⟨d, semantic, hd, -, -⟩
  · rw [AttributeInterface.reports_ofLines] at h
    obtain ⟨earlier, hquiet⟩ := h.of_flatMapEarlier hline
    rw [attributeLineReports, hread] at hquiet
    exact absurd rfl (hquiet _ (List.mem_singleton_self _))
  · exact ⟨d, hd⟩
  · exact ⟨d, hd⟩

theorem Statement.exists_of_mem_code {ss : List Statement} {s : Statement} (h : s ∈ ss) :
    ∃ before after, code ss = before ++ s.text ++ after := by
  obtain ⟨pre, post, rfl⟩ := List.append_of_mem h
  exact ⟨code pre, code post, by rw [code_append, code, String.append_assoc]⟩

/-! ## Whole runs -/

namespace Shader

open Source (strip)

/-- What became of every declaration of both stages. -/
structure AccountedFor (policy : Policy) (host : Host) (shader : Shader) (reports : Diagnostics)
    (bound : BoundShader) : Prop where
  /-- A uniform is read, and its text is the line of exactly one merged uniform. -/
  uniforms : ∀ body ∈ (strip shader.vertex).uniforms ++ (strip shader.fragment).uniforms,
    (∃ u ∈ (shader.interface policy host).uniforms.uniforms,
      Uniform.read? body = some u ∧ u.line = body) ∧
    ((shader.interface policy host).uniforms.uniforms.map Uniform.line).count body = 1
  vertexVaryings : ∀ body ∈ (strip shader.vertex).varyings, ∃ d, Declarator.Opens d body ∧
    d.name ∈ bound.vertexVaryings.map PlacedVarying.name
  fragmentVaryings : List.Forall₂ (fun body b => Declarator.Opens ⟨b.type, b.name⟩ body)
    (strip shader.fragment).varyings bound.fragmentVaryings
  attributes : ∀ body ∈ (strip shader.vertex).attributes, ∃ d, Declarator.Opens d body
  /-- Attributes with a semantic are bound, in order. -/
  mapped : List.Forall₂
    (fun body b => ∃ d semantic, Declarator.Opens d body ∧
      shader.semantics[d.name]? = some semantic ∧
      b = MappedAttribute.placed policy host ⟨d, semantic⟩)
    ((strip shader.vertex).attributes.filter (hasSemantic shader.semantics)) bound.attributes
  /-- Each of the others has a warning of its own. -/
  unmapped : List.Forall₂
    (fun body r => ∃ d, Declarator.Opens d body ∧ shader.semantics[d.name]? = none ∧
      r = ⟨.warning, .unmappedAttribute, some .vertex,
        "attribute '" ++ d.name ++ "' has no semantic and is not bound"⟩)
    ((strip shader.vertex).attributes.filter fun body => !hasSemantic shader.semantics body)
    (reports.ofKind .unmappedAttribute)
  vertexOutputs : reports.ofKind .ignoredVertexOutput =
    (strip shader.vertex).outputs.map fun body => ⟨.warning, .ignoredVertexOutput, some .vertex,
      "vertex stage output is removed, declare it as a varying: '" ++ body ++ "'"⟩
  fragmentOutputs : ∀ (i : Nat) (body : String), (strip shader.fragment).outputs[i]? = some body →
    ∃ before after, bound.fragment =
      before ++ ("layout(location = " ++ toString i ++ ") out " ++ body ++ ";\n") ++ after

theorem filter_kind_eq_nil {rs : List Diagnostic} {k : Kind} (h : ∀ r ∈ rs, r.kind ≠ k) :
    rs.filter (fun r => r.kind == k) = [] := by
  rw [List.filter_eq_nil_iff]
  exact fun r hr hkind => h r hr (beq_iff_eq.1 hkind)

theorem noErrors_reports_iff {i : Interface} :
    NoErrors i.reports ↔ NoErrors i.attributes.reports ∧ NoErrors i.vertexVaryings.reports ∧
      NoErrors i.fragmentVaryings.reports ∧ NoErrors i.uniforms.reports := by
  simp only [Interface.reports, noErrors_append_iff, and_assoc]

/-- Without errors only the attributes, and varyings that are declared twice, are reported. -/
theorem reports_of_noErrors {policy : Policy} {host : Host} {shader : Shader}
    (h : NoErrors (shader.interface policy host).reports) :
    (∀ r ∈ (shader.interface policy host).vertexVaryings.reports, r.kind = .duplicateVarying) ∧
      (shader.interface policy host).fragmentVaryings.reports = [] ∧
      (shader.interface policy host).uniforms.reports = [] := by
  obtain ⟨-, houtgoing, hincoming, huniforms⟩ := noErrors_reports_iff.1 h
  exact ⟨(VertexVaryings.ofLines_of_noErrors houtgoing).2,
    (FragmentVaryings.foldl_add_of_noErrors hincoming).1,
    (MergedUniforms.ofStages_of_noErrors huniforms).1⟩

theorem ofKind_of_noErrors {policy : Policy} {host : Host} {shader : Shader} {k : Kind}
    (h : NoErrors (shader.interface policy host).reports) (hk : Kind.duplicateVarying ≠ k) :
    (shader.bind policy host).diagnostics.ofKind k =
      (vertexOutputReports (strip shader.vertex)).filter (fun r => r.kind == k) ++
        (shader.interface policy host).attributes.reports.filter (fun r => r.kind == k) := by
  obtain ⟨houtgoing, hincoming, huniforms⟩ := reports_of_noErrors h
  have hvaryings : (shader.interface policy host).vertexVaryings.reports.filter
      (fun r => r.kind == k) = [] := by
    apply filter_kind_eq_nil
    intro r hr
    rw [houtgoing r hr]
    exact hk
  show (vertexOutputReports (strip shader.vertex) ++
    (shader.interface policy host).reports).filter _ = _
  rw [Interface.reports, hincoming, huniforms, List.append_nil, List.append_nil, List.filter_append,
    List.filter_append, hvaryings, List.append_nil]

theorem ofKind_unmappedAttribute {policy : Policy} {host : Host} {shader : Shader}
    (h : NoErrors (shader.interface policy host).reports) :
    (shader.bind policy host).diagnostics.ofKind .unmappedAttribute =
      (shader.interface policy host).attributes.reports.filter fun r =>
        r.kind == .unmappedAttribute := by
  rw [ofKind_of_noErrors h (by decide), filter_kind_eq_nil, List.nil_append]
  intro r hr
  obtain ⟨body, -, rfl⟩ := List.mem_map.1 hr
  exact (by decide : Kind.ignoredVertexOutput ≠ Kind.unmappedAttribute)

theorem ofKind_ignoredVertexOutput {policy : Policy} {host : Host} {shader : Shader}
    (h : NoErrors (shader.interface policy host).reports) :
    (shader.bind policy host).diagnostics.ofKind .ignoredVertexOutput =
      vertexOutputReports (strip shader.vertex) := by
  have hall : (vertexOutputReports (strip shader.vertex)).filter
      (fun r => r.kind == .ignoredVertexOutput) = vertexOutputReports (strip shader.vertex) := by
    rw [List.filter_eq_self]
    intro r hr
    obtain ⟨body, -, rfl⟩ := List.mem_map.1 hr
    rfl
  have hnone : (shader.interface policy host).attributes.reports.filter
      (fun r => r.kind == .ignoredVertexOutput) = [] := by
    apply filter_kind_eq_nil
    intro r hr hkind
    have hkinds := AttributeInterface.kind_reports _ _ _ _ r hr
    rw [hkind] at hkinds
    exact absurd hkinds (by decide)
  rw [ofKind_of_noErrors h (by decide), hall, hnone, List.append_nil]

theorem fragmentOutput_in_fragment {policy : Policy} {host : Host} {shader : Shader}
    {bound : BoundShader} (hrun : (shader.bind policy host).outcome = .ok bound) {i : Nat}
    {body : String} (h : (strip shader.fragment).outputs[i]? = some body) :
    ∃ before after, bound.fragment = before ++ (Statement.fragmentOutput i body).text ++ after := by
  obtain ⟨-, -, hfragment, -⟩ := outcome_eq_ok_iff.1 hrun
  obtain ⟨before, after, hfilled⟩ := exists_of_fillStage hfragment
  have hmem : Statement.fragmentOutput i body ∈ (shader.interface policy host).outputs :=
    List.mem_map.2 ⟨(body, i), List.mem_zipIdx_iff_getElem?.2 h, rfl⟩
  obtain ⟨pre, post, hcode⟩ := Statement.exists_of_mem_code hmem
  rw [hfilled, Interface.fragmentBlock, hcode]
  exact ⟨before ++ (Statement.code (FragmentVaryings.statements
      (shader.interface policy host).fragmentVaryings) ++ "\n" ++ pre),
    post ++ "\n" ++ Statement.code (bound.mesh.statements host) ++ after,
    by simp only [String.append_assoc]⟩

/-- A run that succeeds without an error accounts for every declaration of the shader. -/
theorem accountedFor_of_not_failed {policy : Policy} {host : Host} {shader : Shader}
    {bound : BoundShader} (hrun : (shader.bind policy host).outcome = .ok bound)
    (hok : (shader.bind policy host).diagnostics.failed = false) :
    shader.AccountedFor policy host (shader.bind policy host).diagnostics bound := by
  obtain ⟨-, -, -, hattributes, houtgoing, hincoming⟩ := outcome_eq_ok_iff.1 hrun
  have hclean : NoErrors (shader.interface policy host).reports :=
    (noErrors_append_iff.1 (Diagnostics.failed_eq_false_iff.1 hok)).2
  obtain ⟨hlines, hvertex, hfragment, huniforms⟩ := noErrors_reports_iff.1 hclean
  have hread := read?_of_noErrors hlines
  have hsound : (shader.interface policy host).uniforms.Sound := MergedUniforms.sound_ofStages _ _
  constructor
  case uniforms =>
    intro body hbody
    have hcount := (MergedUniforms.ofStages_of_noErrors huniforms).2 body hbody
    obtain ⟨u, hu, rfl⟩ := List.mem_map.1 (List.count_pos_iff.1 (by rw [hcount]; exact Nat.one_pos))
    exact ⟨⟨u, hu, hsound.read u hu, rfl⟩, hcount⟩
  case vertexVaryings =>
    rw [houtgoing]
    exact (VertexVaryings.ofLines_of_noErrors hvertex).1
  case fragmentVaryings =>
    obtain ⟨-, placed, hplaced, hbodies⟩ := FragmentVaryings.foldl_add_of_noErrors hfragment
    have hall : (shader.interface policy host).fragmentVaryings.placed = placed := hplaced
    rw [hincoming, hall]
    exact hbodies
  case attributes =>
    intro body hbody
    obtain ⟨d, hd⟩ := hread body hbody
    exact ⟨d, Declarator.read?_eq_some_iff.1 hd⟩
  case mapped =>
    rw [hattributes]
    exact forall₂_placed policy host _
  case unmapped =>
    rw [ofKind_unmappedAttribute hclean]
    exact filter_unmapped policy host hread
  case vertexOutputs => exact ofKind_ignoredVertexOutput hclean
  case fragmentOutputs => exact fun i body h => fragmentOutput_in_fragment hrun h

/-- A shader with an attribute that has no semantic, a varying declared twice, an output of the
vertex stage, and two outputs of the fragment stage. -/
def glowShader : Shader where
  label := none
  vertex := "attribute vec4 tint;attribute vec3 p;varying vec2 uv;varying vec2 uv;out vec4 glow;"
  fragment := "varying vec2 uv;uniform vec4 fog;out vec4 color;out vec4 depth;uniform vec4 fog;"
  semantics := .ofList [("p", Semantic.position)]

theorem accountedFor_of_not_failed_glowShader :
    (glowShader.bind {} {}).diagnostics.failed = false ∧
    ∃ bound, (glowShader.bind {} {}).outcome = .ok bound ∧
      glowShader.AccountedFor {} {} (glowShader.bind {} {}).diagnostics bound := by
  have hvertex : strip glowShader.vertex =
      ⟨"@@@\n", ["vec4 tint", "vec3 p"], ["vec2 uv", "vec2 uv"], ["vec4 glow"], []⟩ := by
    decide +kernel
  have hfragment : strip glowShader.fragment =
      ⟨"@@@\n", [], ["vec2 uv"], ["vec4 color", "vec4 depth"], ["vec4 fog", "vec4 fog"]⟩ := by
    decide +kernel
  have hok : (glowShader.bind {} {}).diagnostics.failed = false := by
    unfold bind
    rw [hvertex, hfragment]
    decide +kernel
  have hsome : (glowShader.bind {} {}).outcome.toOption.isSome = true := by
    unfold bind
    rw [hvertex, hfragment]
    decide +kernel
  cases hrun : (glowShader.bind {} {}).outcome with
  | error failure =>
    rw [hrun] at hsome
    cases hsome
  | ok bound => exact ⟨hok, bound, rfl, accountedFor_of_not_failed hrun hok⟩

end Shader

end GlslLayout
