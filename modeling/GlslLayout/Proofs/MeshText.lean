import GlslLayout.Proofs.BindGroup
import GlslLayout.Proofs.Shader

/-!
The bind group of the mesh set describes the text that is written for it.

* `Host.NamesOver`: which characters the names of the host are made of.
* `MeshInterface.spelled_statements`: which characters the declarations of all uniforms are made of.
* `MeshInterface.filter_statements`: in the mesh set only the statements of the mesh itself bind
  something, since the host leaves it free.
* `MeshInterface.DeclaredBy`: what the lines of a code must say about the mesh set.
* `Shader.mesh_declaredBy_uniforms`: the uniforms of a bound shader say it.
-/

namespace GlslLayout

set_option autoImplicit false

/-! ## What the host declares -/

namespace SetTable

variable {α : Type} {t : SetTable α}

theorem mem_entries_iff {set : Nat} {a : α} : (set, a) ∈ entries t ↔ get? t set = some a := by
  have hslot : get? t set = some a ↔ t[set]? = some (some a) := by
    rw [get?, Option.join_eq_some_iff]
  rw [hslot, entries, List.mem_filterMap]
  constructor
  · rintro ⟨⟨slot, i⟩, hmem, hsome⟩
    obtain ⟨b, rfl, heq⟩ := Option.map_eq_some_iff.1 hsome
    obtain ⟨rfl, rfl⟩ := Prod.mk.inj heq
    exact List.mem_zipIdx_iff_getElem?.1 hmem
  · intro hmem
    exact ⟨(some a, set), List.mem_zipIdx_iff_getElem?.2 hmem, rfl⟩

theorem mem_values_of_mem_entries {set : Nat} {a : α} (h : (set, a) ∈ entries t) :
    a ∈ values t := by
  rw [mem_entries_iff, get?, Option.join_eq_some_iff] at h
  exact List.mem_filterMap.2 ⟨some a, List.mem_of_getElem? h, rfl⟩

end SetTable

namespace Host

/-- Every name that the host provides is made of characters with a property. -/
structure NamesOver (p : Char → Prop) (host : Host) : Prop where
  members : ∀ layout ∈ SetTable.values host.blocks, ∀ m ∈ layout.members, Over p m.name
  textures : ∀ group ∈ SetTable.values host.groups, ∀ t ∈ group.textures, Over p t.name

variable {host : Host}

theorem NamesOver.spelled_blockStatements {p : Char → Prop} (h : host.NamesOver p) :
    ∀ s ∈ host.blockStatements, s.Spelled p := by
  intro s hs
  obtain ⟨⟨set, layout⟩, hentry, rfl⟩ := List.mem_map.1 hs
  intro m hm
  obtain ⟨placed, hplaced, rfl⟩ := List.mem_map.1 hm
  have hlayout := SetTable.mem_values_of_mem_entries hentry
  exact h.members layout hlayout placed hplaced

theorem NamesOver.spelled_textureStatements {p : Char → Prop}
    (hp : ∀ c, Source.isWordChar c = true → p c) (h : host.NamesOver p) :
    ∀ s ∈ host.textureStatements, s.Spelled p := by
  intro s hs
  obtain ⟨⟨set, group⟩, hentry, hs⟩ := List.mem_flatMap.1 hs
  have hgroup := SetTable.mem_values_of_mem_entries hentry
  exact BindGroup.spelled_textureStatements hp (h.textures group hgroup) set s hs

theorem filter_blockStatements {set : Nat} (h : host.occupies set = false) :
    host.blockStatements.filter (Statement.bindsIn set) = [] := by
  rw [List.filter_eq_nil_iff]
  intro s hs hbinds
  obtain ⟨⟨own, layout⟩, hentry, rfl⟩ := List.mem_map.1 hs
  have hown : own = set := by
    simpa [Statement.bindsIn, BlockLayout.statement, Statement.address?] using hbinds
  rw [hown, SetTable.mem_entries_iff] at hentry
  simp [occupies, hentry] at h

theorem filter_textureStatements {set : Nat} (h : host.occupies set = false) :
    host.textureStatements.filter (Statement.bindsIn set) = [] := by
  rw [textureStatements, List.filter_flatMap, List.flatMap_eq_nil_iff]
  rintro ⟨own, group⟩ hentry
  rw [BindGroup.filter_textureStatements, if_neg]
  rintro rfl
  rw [SetTable.mem_entries_iff] at hentry
  simp [occupies, hentry] at h

end Host

/-! ## What the mesh declares -/

namespace MeshInterface

/-- The statements of the mesh set that have an address. -/
def ownStatements (mesh : MeshInterface) : List Statement :=
  mesh.block.toList.map (BlockLayout.statement · ⟨meshSet, 0⟩) ++ mesh.group.resources meshSet

theorem filter_statements {host : Host} (h : host.occupies meshSet = false) (mesh : MeshInterface) :
    (mesh.statements host).filter (Statement.bindsIn meshSet) = mesh.ownStatements := by
  have hblock : (mesh.block.toList.map (BlockLayout.statement · ⟨meshSet, 0⟩)).filter
      (Statement.bindsIn meshSet) = mesh.block.toList.map (BlockLayout.statement · ⟨meshSet, 0⟩) := by
    cases mesh.block <;> rfl
  rw [statements, List.filter_append, List.filter_append, List.filter_append, hblock,
    Host.filter_blockStatements h, Host.filter_textureStatements h,
    BindGroup.filter_textureStatements, if_pos rfl, List.nil_append, List.append_nil]
  rfl

theorem addresses_ownStatements {mesh : MeshInterface}
    (h : mesh.group.buffers = buffersOf mesh.block) :
    mesh.ownStatements.filterMap Statement.address? =
      (List.range mesh.group.bindingCount).map fun b => ⟨meshSet, b⟩ := by
  rw [ownStatements, List.filterMap_append, BindGroup.addresses_resources, List.range_eq_range',
    BindGroup.bindingCount, BindGroup.textureBinding, h]
  cases mesh.block with
  | none => simp [buffersOf]
  | some layout =>
    have hone : (buffersOf (some layout)).length = 1 := rfl
    rw [hone, Nat.add_comm, List.range'_succ]
    rfl

/-- The lines of a code that bind something in the mesh set, as the interface of the mesh describes
them. -/
structure DeclaredBy (mesh : MeshInterface) (code : String) : Prop where
  /-- They take the bindings of the group, one line each, in order. -/
  bindings : (linesStarting "layout(set = 2," code).map lineAddress? =
    (List.range mesh.group.bindingCount).map fun b => some ⟨2, b⟩
  block : ∀ layout, mesh.block = some layout →
    (linesStarting "layout(set = 2," code)[0]? =
        some "layout(set = 2, binding = 0, std140) uniform ub_mesh \x7b" ∧
      mesh.group.bufferBinding? "default" = some 0
  noBlock : mesh.block = none → mesh.group.buffers = []
  nodup : (mesh.group.textures.map TextureSlot.name).Nodup
  textures : ∀ t ∈ mesh.group.textures, ∃ b, mesh.group.textureBinding? t.name = some b ∧
    (linesStarting "layout(set = 2," code)[b]? =
      some ("layout(set = 2, binding = " ++ toString b ++ ") uniform " ++ t.textureType ++ " " ++
        t.viewName ++ ";") ∧
    (linesStarting "layout(set = 2," code)[b + 1]? =
      some ("layout(set = 2, binding = " ++ toString (b + 1) ++ ") uniform " ++ t.samplerType ++
        " " ++ t.name ++ "_sampler;")

theorem heading_meshSet (b : Nat) (ending : String) :
    heading ⟨meshSet, b⟩ ending = "layout(set = 2, binding = " ++ toString b ++ ending := by
  have hset : toString meshSet = "2" := by decide
  simp [heading, layoutStart, hset, String.append_assoc]

/-- Behind the headings of the buffers stand those of the textures. -/
theorem getElem?_headings {mesh : MeshInterface} (h : mesh.group.buffers = buffersOf mesh.block)
    (i : Nat) :
    (mesh.ownStatements.filterMap Statement.heading?)[mesh.group.buffers.length + i]? =
      ((mesh.group.resources meshSet).filterMap Statement.heading?)[i]? := by
  have hlength : ((mesh.block.toList.map (BlockLayout.statement · ⟨meshSet, 0⟩)).filterMap
      Statement.heading?).length = mesh.group.buffers.length := by
    rw [h]
    cases mesh.block <;> rfl
  rw [ownStatements, List.filterMap_append, ← hlength,
    List.getElem?_append_right (Nat.le_add_right _ _), Nat.add_sub_cancel_left]

/-- The interface of a mesh describes a code whose lines in the mesh set are its own headings. -/
theorem declaredBy_of_lines {mesh : MeshInterface} {code : String}
    (hbuffers : mesh.group.buffers = buffersOf mesh.block)
    (hnodup : (mesh.group.textures.map TextureSlot.name).Nodup)
    (hlines : linesStarting "layout(set = 2," code =
      mesh.ownStatements.filterMap Statement.heading?) : mesh.DeclaredBy code where
  bindings := by
    rw [hlines, Statement.map_lineAddress?_headings, addresses_ownStatements hbuffers, List.map_map]
    rfl
  block := by
    intro layout hblock
    rw [hlines, ownStatements, BindGroup.bufferBinding?, hbuffers, hblock]
    exact ⟨rfl, rfl⟩
  noBlock := by
    intro hblock
    rw [hbuffers, hblock]
    rfl
  nodup := hnodup
  textures := by
    intro t ht
    obtain ⟨i, hi⟩ := List.getElem?_of_mem ht
    obtain ⟨hview, hsampler⟩ := mesh.group.headings_resources meshSet hi
    rw [← getElem?_headings hbuffers, ← hlines, heading_meshSet] at hview hsampler
    refine ⟨mesh.group.textureBinding i, BindGroup.textureBinding?_of_nodup hnodup hi, ?_, ?_⟩
    · rw [BindGroup.textureBinding, hview]
      simp [BindGroup.textureBinding, String.append_assoc]
    · rw [BindGroup.textureBinding, Nat.add_assoc, hsampler]
      simp [BindGroup.textureBinding, Statement.samplerName, String.append_assoc, Nat.add_assoc]

/-- What is written for the uniforms adds only word characters to the names of the host and of the
uniforms. -/
theorem spelled_statements {p : Char → Prop} (hp : ∀ c, Source.isWordChar c = true → p c)
    {host : Host} (hhost : host.NamesOver p) {uniforms : List Uniform}
    (huniforms : ∀ u ∈ uniforms, Over p u.name) {mesh : MeshInterface}
    (h : ofUniforms host uniforms = .ok mesh) : ∀ s ∈ mesh.statements host, s.Spelled p := by
  have hname : ∀ us : List Uniform, us ⊆ uniforms → ∀ name ∈ us.map Uniform.name, Over p name := by
    intro us hus name hmem
    obtain ⟨u, hu, rfl⟩ := List.mem_map.1 hmem
    exact huniforms u (hus hu)
  intro s hs
  simp only [statements, List.mem_append, or_assoc] at hs
  rcases hs with hs | hs | hs | hs
  · exact hhost.spelled_blockStatements s hs
  · obtain ⟨layout, hlayout, rfl⟩ := List.mem_map.1 hs
    intro member hmember
    refine hname (ownValues host uniforms) List.filter_sublist.subset member.name ?_
    rw [← names_members h (Option.mem_toList.1 hlayout)]
    exact List.mem_map_of_mem hmember
  · exact hhost.spelled_textureStatements hp s hs
  · refine BindGroup.spelled_textureStatements hp ?_ meshSet s hs
    intro t ht
    refine hname (ownTextures host uniforms) List.filter_sublist.subset t.name ?_
    rw [← names_textures h]
    exact List.mem_map_of_mem ht

theorem oneLine_of_noBreak {host : Host} (hnames : host.NamesOver (· ≠ '\n'))
    {uniforms : List Uniform} (huniforms : ∀ u ∈ uniforms, NoBreak u.name) {mesh : MeshInterface}
    (h : ofUniforms host uniforms = .ok mesh) : ∀ s ∈ mesh.statements host, s.Spelled (· ≠ '\n') :=
  spelled_statements ne_break_of_isWordChar hnames
    (fun u hu => noBreak_iff_over.1 (huniforms u hu)) h

theorem oneLine_statements {host : Host} (hnames : host.NamesOver (· ≠ '\n')) {m : MergedUniforms}
    (hm : m.Sound) {mesh : MeshInterface} (h : ofUniforms host m.uniforms = .ok mesh) :
    ∀ s ∈ mesh.statements host, s.Spelled (· ≠ '\n') :=
  oneLine_of_noBreak hnames (fun u hu => Uniform.noBreak_name_of_read? (hm.read u hu)) h

end MeshInterface

/-! ## Bound shaders -/

namespace Shader

/-- The uniforms of a bound shader stand in both stages, and the interface of its mesh describes how
they bind the mesh set. -/
theorem mesh_declaredBy_uniforms {policy : Policy} {host : Host} {shader : Shader}
    {bound : BoundShader} (hnames : host.NamesOver (· ≠ '\n'))
    (hrun : (shader.bind policy host).outcome = .ok bound) :
    (∀ text ∈ [bound.vertex, bound.fragment], ∃ before after,
      text = before ++ Statement.code (bound.mesh.statements host) ++ after) ∧
    bound.mesh.DeclaredBy (Statement.code (bound.mesh.statements host)) := by
  obtain ⟨hmesh, -⟩ := outcome_eq_ok_iff.1 hrun
  obtain ⟨hfree, -⟩ := MeshInterface.ofUniforms_eq_ok_iff.1 hmesh
  have hsound : (shader.interface policy host).uniforms.Sound := MergedUniforms.sound_ofStages _ _
  refine ⟨uniforms_in_stages hrun, MeshInterface.declaredBy_of_lines
    (MeshInterface.buffers_of_block hmesh) (MeshInterface.nodup_textures hsound hmesh) ?_⟩
  have honeLine := MeshInterface.oneLine_statements hnames hsound hmesh
  have hstart : setStart meshSet = "layout(set = 2," := by decide
  rw [← hstart, linesStarting_setStart honeLine, MeshInterface.filter_statements hfree]

/-- A host with a block in one set and an array texture in another. -/
def viewHost : Host where
  blocks := [some ⟨[⟨⟨"view", .matrix .four, .single⟩, 0⟩], 64⟩]
  groups := [none, some ⟨[], [⟨"albedo", .all, .d2Array, .float⟩]⟩]

/-- A shader that brings a value and two textures, one of them declared in both stages, and uses
what the host provides. -/
def litShader : Shader where
  label := none
  vertex :=
    "uniform mat4 view;\nuniform float time;\nuniform sampler2D noise;\nvoid main() \x7b\x7d\n"
  fragment :=
    "uniform sampler2DArray albedo;\nuniform sampler2D noise;\nuniform sampler2DArrayShadow shade;"
  semantics := ∅

theorem mesh_declaredBy_uniforms_litShader :
    viewHost.NamesOver (· ≠ '\n') ∧
    ∃ bound, (litShader.bind {} viewHost).outcome = .ok bound ∧
      bound.mesh = ⟨some ⟨[⟨⟨"time", .scalar .float, .single⟩, 0⟩], 16⟩,
        ⟨[⟨"default", .all⟩],
          [⟨"noise", .all, .d2, .float⟩, ⟨"shade", .all, .d2Array, .depth⟩]⟩⟩ ∧
      (∀ text ∈ [bound.vertex, bound.fragment], ∃ before after,
        text = before ++ Statement.code (bound.mesh.statements viewHost) ++ after) ∧
      bound.mesh.DeclaredBy (Statement.code (bound.mesh.statements viewHost)) := by
  have hnames : viewHost.NamesOver (· ≠ '\n') := ⟨by decide, by decide⟩
  have hmesh : (litShader.bind {} viewHost).outcome.toOption.map BoundShader.mesh =
      some ⟨some ⟨[⟨⟨"time", .scalar .float, .single⟩, 0⟩], 16⟩,
        ⟨[⟨"default", .all⟩],
          [⟨"noise", .all, .d2, .float⟩, ⟨"shade", .all, .d2Array, .depth⟩]⟩⟩ := by
    decide +kernel
  cases hrun : (litShader.bind {} viewHost).outcome with
  | error failure =>
    rw [hrun] at hmesh
    cases hmesh
  | ok bound =>
    rw [hrun] at hmesh
    exact ⟨hnames, bound, rfl, Option.some.inj hmesh, mesh_declaredBy_uniforms hnames hrun⟩

end Shader

end GlslLayout
