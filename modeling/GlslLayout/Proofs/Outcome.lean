import GlslLayout.Proofs.Attribute
import GlslLayout.Proofs.BlockLayout
import GlslLayout.Proofs.Provision
import GlslLayout.Proofs.Rewriting

/-!
What decides the outcome of a run, and what does not.

* `MeshInterface.checks`, `Shader.checks`: the failures that may end a run, in their order, each
  from the uniforms, the host and the stripped sources alone.
* `Shader.outcome_firstFailure`: a run ends with the first of them.
* `Shader.runs_apart`: the host does not change what is reported, and the attributes do not change
  what the run makes of the rest.
-/

namespace GlslLayout

set_option autoImplicit false

/-! ## Looking up a list -/

/-- A list is looked up entry by entry, and the first element without an entry ends it. -/
theorem mapM_lookup {α β ε : Type} {f : α → Except ε β} {lookup? : α → Option β} {fail : α → ε}
    (hf : ∀ a, f a = (lookup? a).elim (.error (fail a)) .ok) (l : List α) :
    l.mapM f = (l.find? fun a => (lookup? a).isNone).elim (.ok (l.filterMap lookup?))
      fun a => .error (fail a) := by
  induction l with
  | nil => rfl
  | cons a l ih =>
    rw [List.mapM_cons, ih, hf]
    cases ha : lookup? a with
    | none =>
      rw [List.find?_cons_of_pos (by simp [ha])]
      rfl
    | some b =>
      rw [List.find?_cons_of_neg (by simp [ha]), List.filterMap_cons_some ha]
      cases l.find? fun a => (lookup? a).isNone <;> rfl

namespace Uniform

/-- The uniform as a member of a block, if a block can hold its type. -/
def member? (u : Uniform) : Option Member :=
  (ValueType.ofName? u.type).map fun type => ⟨u.name, type, u.extent⟩

/-- The uniform as a texture, if its type is a known sampler. -/
def texture? (u : Uniform) : Option TextureSlot :=
  (Sampler.ofName? u.type).map fun sampler => ⟨u.name, .all, sampler.dimension, u.delivers sampler⟩

theorem isNone_member? (u : Uniform) : u.member?.isNone = (ValueType.ofName? u.type).isNone :=
  Option.isNone_map

theorem isNone_texture? (u : Uniform) : u.texture?.isNone = (Sampler.ofName? u.type).isNone :=
  Option.isNone_map

theorem toMember_eq (u : Uniform) :
    u.toMember = u.member?.elim (.error (.unknownValueType u.type u.line)) .ok := by
  unfold toMember member?
  cases ValueType.ofName? u.type <;> rfl

theorem toTexture_eq (u : Uniform) :
    u.toTexture = u.texture?.elim (.error (.unknownSampler u.type u.line)) .ok := by
  unfold toTexture texture?
  cases Sampler.ofName? u.type <;> rfl

end Uniform

/-! ## The failures of the uniforms -/

theorem Host.exists_eq_with_elements {host host' : Host} (hblocks : host'.blocks = host.blocks)
    (hgroups : host'.groups = host.groups) : ∃ elements, host' = { host with elements } := by
  obtain ⟨blocks, groups, elements⟩ := host'
  subst hblocks hgroups
  exact ⟨elements, rfl⟩

namespace MeshInterface

/-- The failures that uniforms may end with, in the order in which they are looked for. -/
def checks (host : Host) (uniforms : List Uniform) : List (Option Failure) :=
  let values := uniforms.filter fun u => u.isSampler = false ∧ ¬ host.HasMember u.name
  let textures := uniforms.filter fun u => u.isSampler = true ∧ ¬ host.HasTexture u.name
  let layout := BlockLayout.std140 (values.filterMap Uniform.member?)
  [ -- the host has something in the set of the shader
    if (SetTable.get? host.blocks 2).isSome ∨ (SetTable.get? host.groups 2).isSome then
      some (.reservedSet 2) else none,
    (values.find? fun u => (ValueType.ofName? u.type).isNone).map fun u =>
      .unknownValueType u.type u.line,
    if layout.byteSize ≤ 4294967295 then none else some (.blockOverflow layout.overflow),
    (textures.find? fun u => (Sampler.ofName? u.type).isNone).map fun u =>
      .unknownSampler u.type u.line ]

theorem blockOf_eq (members : List Member) :
    blockOf members =
      if (BlockLayout.std140 members).byteSize ≤ maxWord then
        .ok (if members.isEmpty then none else some (BlockLayout.std140 members))
      else .error (.blockOverflow (BlockLayout.std140 members).overflow) := by
  rw [blockOf, BlockLayout.place_eq]
  cases members with
  | nil => rfl
  | cons m members =>
    by_cases h : (BlockLayout.std140 (m :: members)).byteSize ≤ maxWord
    · simp [h]
    · simp [h]

theorem occupies_meshSet_iff {host : Host} :
    host.occupies meshSet = true ↔
      (SetTable.get? host.blocks 2).isSome ∨ (SetTable.get? host.groups 2).isSome := by
  rw [Host.occupies, Bool.or_eq_true]
  rfl

/-- The mesh set can be made if no check finds a failure, and else the first failure ends it. -/
theorem ofUniforms_checks (host : Host) (uniforms : List Uniform) :
    match (checks host uniforms).findSome? id with
    | some failure => ofUniforms host uniforms = .error failure
    | none => ∃ mesh, ofUniforms host uniforms = .ok mesh := by
  unfold ofUniforms checks
  simp only [mapM_lookup Uniform.toMember_eq, mapM_lookup Uniform.toTexture_eq, blockOf_eq,
    ownValues_eq_filter, ownTextures_eq_filter, Uniform.isNone_member?, Uniform.isNone_texture?,
    ← occupies_meshSet_iff, ← maxWord_eq]
  generalize uniforms.filter (fun u => u.isSampler = false ∧ ¬ host.HasMember u.name) = values
  generalize uniforms.filter (fun u => u.isSampler = true ∧ ¬ host.HasTexture u.name) = textures
  -- both sides now look for the same failures: the cases follow their order
  by_cases hset : host.occupies meshSet = true
  · simp only [hset, if_true, List.findSome?_cons, id]
    rfl
  · cases values.find? fun u => (ValueType.ofName? u.type).isNone with
    | some u => simp [hset, bind, Except.bind]
    | none =>
      by_cases hsize : (BlockLayout.std140 (values.filterMap Uniform.member?)).byteSize ≤ maxWord
      · cases textures.find? fun u => (Sampler.ofName? u.type).isNone with
        | some u => simp [hset, hsize, bind, Except.bind]
        | none => simp [hset, hsize, bind, Except.bind, pure, Except.pure]
      · simp [hset, hsize, bind, Except.bind]

end MeshInterface

/-! ## The failures of a run -/

namespace Shader

open Source (strip)

/-- The uniforms that the two stages declare, merged. -/
def uniforms (shader : Shader) : List Uniform :=
  (MergedUniforms.ofStages (strip shader.vertex).uniforms (strip shader.fragment).uniforms).uniforms

/-- The failures that may end a run with the given uniforms and stripped sources, in their order. -/
def checks (host : Host) (uniforms : List Uniform) (vertex fragment : String) :
    List (Option Failure) :=
  MeshInterface.checks host uniforms ++
    [ if "@@@".toList <:+: vertex.toList then none else some (.noMark .vertex),
      if "@@@".toList <:+: fragment.toList then none else some (.noMark .fragment) ]

/-- What a run fails with, if it fails. -/
def firstFailure (host : Host) (uniforms : List Uniform) (vertex fragment : String) :
    Option Failure :=
  (checks host uniforms vertex fragment).findSome? id

theorem hasMark_iff_infix (s : Source.Stripped) :
    s.hasMark = true ↔ "@@@".toList <:+: s.text.toList :=
  Text.occurs_iff_infix

theorem outcome_eq_error_iff_firstFailure (policy : Policy) (host : Host) (shader : Shader)
    (failure : Failure) :
    (shader.bind policy host).outcome = .error failure ↔
      firstFailure host shader.uniforms (strip shader.vertex).text (strip shader.fragment).text =
        some failure := by
  have huniforms : (shader.interface policy host).uniforms.uniforms = shader.uniforms := rfl
  have hmesh := MeshInterface.ofUniforms_checks host shader.uniforms
  rw [outcome_eq_error_iff, huniforms, firstFailure, checks, List.findSome?_append]
  cases hfound : (MeshInterface.checks host shader.uniforms).findSome? id with
  | some found =>
    rw [hfound] at hmesh
    simp [hmesh]
  | none =>
    rw [hfound] at hmesh
    obtain ⟨mesh, hmesh⟩ := hmesh
    simp only [hmesh, ← hasMark_iff_infix]
    cases (strip shader.vertex).hasMark <;> cases (strip shader.fragment).hasMark <;>
      simp [eq_comm]

theorem outcome_eq_ok_iff_firstFailure (policy : Policy) (host : Host) (shader : Shader) :
    (∃ bound, (shader.bind policy host).outcome = .ok bound) ↔
      firstFailure host shader.uniforms (strip shader.vertex).text (strip shader.fragment).text =
        none := by
  rw [Option.eq_none_iff_forall_ne_some]
  simp only [ne_eq, ← outcome_eq_error_iff_firstFailure policy host shader]
  cases (shader.bind policy host).outcome <;> simp

/-- A run ends with the first failure that is found, in a fixed order, about the host, the uniforms
and the places for declarations, and it succeeds if there is none. Runs that agree in these fail
alike. -/
theorem outcome_firstFailure (policy : Policy) (host : Host) (shader : Shader) :
    (∀ failure, (shader.bind policy host).outcome = .error failure ↔
      firstFailure host shader.uniforms (strip shader.vertex).text (strip shader.fragment).text =
        some failure) ∧
    ((∃ bound, (shader.bind policy host).outcome = .ok bound) ↔
      firstFailure host shader.uniforms (strip shader.vertex).text (strip shader.fragment).text =
        none) ∧
    ∀ (policy' : Policy) (host' : Host) (shader' : Shader),
      host'.blocks = host.blocks → host'.groups = host.groups →
      shader'.uniforms = shader.uniforms →
      ("@@@".toList <:+: (strip shader'.vertex).text.toList ↔
        "@@@".toList <:+: (strip shader.vertex).text.toList) →
      ("@@@".toList <:+: (strip shader'.fragment).text.toList ↔
        "@@@".toList <:+: (strip shader.fragment).text.toList) →
      ∀ failure, (shader'.bind policy' host').outcome = .error failure ↔
        (shader.bind policy host).outcome = .error failure := by
  refine ⟨outcome_eq_error_iff_firstFailure policy host shader,
    outcome_eq_ok_iff_firstFailure policy host shader, ?_⟩
  intro policy' host' shader' hblocks hgroups huniforms hvertex hfragment failure
  obtain ⟨elements, rfl⟩ := Host.exists_eq_with_elements hblocks hgroups
  have hmesh : MeshInterface.checks { host with elements } shader.uniforms =
      MeshInterface.checks host shader.uniforms := rfl
  rw [outcome_eq_error_iff_firstFailure, outcome_eq_error_iff_firstFailure, firstFailure,
    firstFailure, checks, checks, huniforms, hmesh]
  simp only [hvertex, hfragment]

/-- A shader with a value of no known type, a texture of no known type, and a fragment stage that
declares nothing. -/
def misspeltShader : Shader where
  label := none
  vertex := "uniform sampler1D noise;uniform vec5 tint;"
  fragment := "void main() \x7b\x7d\n"
  semantics := ∅

def misspeltShaderWithAttribute : Shader where
  label := some "misspelt"
  vertex := "attribute vec3 p;uniform sampler1D noise;uniform vec5 tint;"
  fragment := "void main() \x7b\x7d\n"
  semantics := .ofList [("p", Semantic.position)]

theorem outcome_firstFailure_misspeltShader :
    (misspeltShader.bind {} {}).outcome = .error (.unknownValueType "vec5" "vec5 tint") ∧
    (misspeltShaderWithAttribute.bind { strictLocations := true } {}).outcome =
      .error (.unknownValueType "vec5" "vec5 tint") := by
  have hfailure : firstFailure {} misspeltShader.uniforms (strip misspeltShader.vertex).text
      (strip misspeltShader.fragment).text = some (.unknownValueType "vec5" "vec5 tint") := by
    decide +kernel
  have huniforms : misspeltShaderWithAttribute.uniforms = misspeltShader.uniforms := by
    decide +kernel
  have hvertex : (strip misspeltShaderWithAttribute.vertex).text =
      (strip misspeltShader.vertex).text := by
    decide +kernel
  obtain ⟨hfails, -, hsame⟩ := outcome_firstFailure {} {} misspeltShader
  have hrun := (hfails _).2 hfailure
  have hagain := hsame { strictLocations := true } {} misspeltShaderWithAttribute rfl rfl huniforms
    (by rw [hvertex]) Iff.rfl
  exact ⟨hrun, (hagain _).2 hrun⟩

/-! ## What is reported -/

theorem attributeLineReports_congr {policy policy' : Policy}
    (h : policy.strictLocations = policy'.strictLocations) :
    attributeLineReports policy = attributeLineReports policy' := by
  have hcollision : collisionReport policy = collisionReport policy' := by
    funext previous semantic
    unfold collisionReport Policy.collisionSeverity
    rw [h]
  funext semantics earlier line
  rw [attributeLineReports, attributeLineReports, hcollision]

theorem diagnostics_congr {policy policy' : Policy} (host host' : Host) (shader : Shader)
    (h : policy.strictLocations = policy'.strictLocations) :
    (shader.bind policy host).diagnostics = (shader.bind policy' host').diagnostics := by
  simp only [bind, Interface.ofStripped, Interface.reports, AttributeInterface.reports_ofLines,
    attributeLineReports_congr h]

/-- The lines of a log that warn or report an error. -/
def problemLines (log : List LogEntry) : List LogEntry :=
  log.filter fun entry => entry.level = .warn ∨ entry.level = .error

theorem problemLines_log (run : Run) : problemLines run.log = run.diagnostics.log := by
  have hreports : problemLines run.diagnostics.log = run.diagnostics.log := by
    refine List.filter_eq_self.2 fun entry hentry => ?_
    obtain ⟨d, -, rfl⟩ := List.mem_map.1 hentry
    cases hd : d.severity <;> simp [Diagnostic.logEntry, Severity.logLevel, hd]
  unfold problemLines at hreports ⊢
  rw [Run.log, List.filter_append, hreports]
  cases run.outcome <;> simp

/-! ## Two runs on the same sources -/

/-- Two outcomes that may differ in the vertex stage and its attributes only. -/
def AgreeBeyondAttributes : Except Failure BoundShader → Except Failure BoundShader → Prop
  | .error failure, .error failure' => failure = failure'
  | .ok bound, .ok bound' =>
    bound.fragment = bound'.fragment ∧ bound.mesh = bound'.mesh ∧
      bound.vertexVaryings = bound'.vertexVaryings ∧
      bound.fragmentVaryings = bound'.fragmentVaryings
  | _, _ => False

theorem exists_eq_with_semantics {shader shader' : Shader}
    (hvertex : shader'.vertex = shader.vertex) (hfragment : shader'.fragment = shader.fragment) :
    ∃ label semantics, shader' = { shader with label, semantics } := by
  obtain ⟨label, vertex, fragment, semantics⟩ := shader'
  subst hvertex hfragment
  exact ⟨label, semantics, rfl⟩

theorem agreeBeyondAttributes_with_semantics (policy policy' : Policy) (host : Host)
    (elements : Semantic → Option ElementFormat) (shader : Shader) (label : Option String)
    (semantics : SemanticMap) :
    AgreeBeyondAttributes (shader.bind policy host).outcome
      (Shader.bind policy' { host with elements } { shader with label, semantics }).outcome := by
  have huniforms : (Shader.interface policy' { host with elements }
      { shader with label, semantics }).uniforms = (shader.interface policy host).uniforms := rfl
  have hbind : ∀ us, MeshInterface.ofUniforms { host with elements } us =
      MeshInterface.ofUniforms host us := fun _ => rfl
  cases hrun : (shader.bind policy host).outcome with
  | error failure =>
    have hrun' : (Shader.bind policy' { host with elements }
        { shader with label, semantics }).outcome = .error failure := by
      rw [outcome_eq_error_iff] at hrun ⊢
      rw [huniforms, hbind]
      exact hrun
    rw [hrun']
    rfl
  | ok bound =>
    obtain ⟨hmesh, hfilled, hfragment, -, houtgoing, hincoming⟩ := outcome_eq_ok_iff.1 hrun
    let other := Shader.interface policy' { host with elements } { shader with label, semantics }
    -- the vertex stage is filled with other declarations, at the place that the first run found
    obtain ⟨vertex, hvertex⟩ : ∃ vertex, fillStage .vertex (strip shader.vertex)
        (other.vertexBlock (bound.mesh.statements { host with elements })) = .ok vertex :=
      fillStage_ok_iff.2 (fillStage_ok_iff.1 ⟨_, hfilled⟩)
    have hrun' : (Shader.bind policy' { host with elements }
        { shader with label, semantics }).outcome =
          .ok { bound with vertex, attributes := other.attributes.placed } := by
      rw [outcome_eq_ok_iff, huniforms, hbind]
      exact ⟨hmesh, hvertex, hfragment, rfl, houtgoing, hincoming⟩
    rw [hrun']
    exact ⟨rfl, rfl, rfl, rfl⟩

/-- The host and the hidden names do not change what a run reports, and the semantics, the vertex
elements, the policy and the label do not change what it makes of all but the vertex stage. -/
theorem runs_apart (shader : Shader) (policy policy' : Policy) (host host' : Host) :
    (policy.strictLocations = policy'.strictLocations →
      (shader.bind policy host).diagnostics = (shader.bind policy' host').diagnostics ∧
      problemLines (shader.bind policy host).log = problemLines (shader.bind policy' host').log ∧
      (shader.bind policy host).diagnostics.failed =
        (shader.bind policy' host').diagnostics.failed) ∧
    ∀ shader' : Shader, shader'.vertex = shader.vertex → shader'.fragment = shader.fragment →
      host'.blocks = host.blocks → host'.groups = host.groups →
      AgreeBeyondAttributes (shader.bind policy host).outcome
        (shader'.bind policy' host').outcome := by
  constructor
  · intro hstrict
    have hreports := diagnostics_congr host host' shader hstrict
    rw [problemLines_log, problemLines_log, hreports]
    exact ⟨rfl, rfl, rfl⟩
  · intro shader' hvertex hfragment hblocks hgroups
    obtain ⟨label, semantics, rfl⟩ := exists_eq_with_semantics hvertex hfragment
    obtain ⟨elements, rfl⟩ := Host.exists_eq_with_elements hblocks hgroups
    exact agreeBeyondAttributes_with_semantics policy policy' host elements shader label semantics

/-- A shader with an attribute that has no semantic. -/
def tintShader : Shader where
  label := none
  vertex := "attribute vec4 tint;uniform float time;"
  fragment := "uniform float time;out vec4 color;"
  semantics := ∅

/-- A host with a group of its own in the set of the shader. -/
def meshSetHost : Host :=
  Host.withGroup {} 2 ⟨[], []⟩

theorem runs_apart_tintShader :
    (tintShader.bind {} {}).outcome.toOption.isSome = true ∧
    (tintShader.bind {} meshSetHost).outcome.toOption.isSome = false ∧
    (tintShader.bind {} {}).diagnostics.entries.length = 1 ∧
    (tintShader.bind {} {}).diagnostics = (tintShader.bind {} meshSetHost).diagnostics ∧
    AgreeBeyondAttributes (tintShader.bind {} {}).outcome
      (Shader.bind { strictLocations := true } {}
        { tintShader with
          label := some "tint"
          semantics := .ofList [("tint", Semantic.position)] }).outcome := by
  have hvertex : strip tintShader.vertex = ⟨"@@@\n", ["vec4 tint"], [], [], ["float time"]⟩ := by
    decide +kernel
  have hfragment : strip tintShader.fragment =
      ⟨"@@@\n", [], [], ["vec4 color"], ["float time"]⟩ := by
    decide +kernel
  refine ⟨?_, ?_, ?_, ((runs_apart tintShader {} {} {} meshSetHost).1 rfl).1,
    (runs_apart tintShader {} { strictLocations := true } {} {}).2 _ rfl rfl rfl rfl⟩
  all_goals
    unfold bind
    rw [hvertex, hfragment]
    decide +kernel

end Shader

end GlslLayout
