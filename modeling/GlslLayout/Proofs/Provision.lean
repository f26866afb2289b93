import GlslLayout.Proofs.MeshText

/-!
Every uniform of a shader is provided once, by the host or by the mesh set.

* `Host.HasMember`, `Host.HasTexture`: what the host provides in any of its sets.
* `MeshInterface.ownValues_eq_filter`, `MeshInterface.ownTextures_eq_filter`: what it does not.
* `MeshInterface.Completes`: the mesh set holds exactly the uniforms that the host lacks.
* `Shader.mesh_completes_host`: the mesh set of a bound shader does.
-/

namespace GlslLayout

set_option autoImplicit false

/-! ## What the host provides -/

theorem SetTable.mem_values_iff {α : Type} {t : SetTable α} {a : α} :
    a ∈ values t ↔ ∃ set, get? t set = some a := by
  constructor
  · intro h
    obtain ⟨slot, hslot, rfl⟩ := List.mem_filterMap.1 h
    obtain ⟨set, hset⟩ := List.mem_iff_getElem?.1 hslot
    exact ⟨set, by rw [get?, hset]; rfl⟩
  · rintro ⟨set, hset⟩
    exact mem_values_of_mem_entries (mem_entries_iff.2 hset)

namespace Host

variable {host : Host} {name : String}

/-- A block of the host, in some set, has a member with the name. -/
def HasMember (host : Host) (name : String) : Prop :=
  ∃ set layout, SetTable.get? host.blocks set = some layout ∧ ∃ m ∈ layout.members, m.name = name

/-- A bind group of the host, in some set, has a texture with the name. -/
def HasTexture (host : Host) (name : String) : Prop :=
  ∃ set group, SetTable.get? host.groups set = some group ∧ ∃ t ∈ group.textures, t.name = name

theorem providesValue_iff : host.providesValue name = true ↔ host.HasMember name := by
  simp only [providesValue, BlockLayout.hasMember, List.any_eq_true, SetTable.mem_values_iff,
    beq_iff_eq]
  constructor
  · rintro ⟨layout, ⟨set, hset⟩, hmember⟩
    exact ⟨set, layout, hset, hmember⟩
  · rintro ⟨set, layout, hset, hmember⟩
    exact ⟨layout, ⟨set, hset⟩, hmember⟩

theorem providesTexture_iff : host.providesTexture name = true ↔ host.HasTexture name := by
  simp only [providesTexture, BindGroup.hasTexture, List.any_eq_true, SetTable.mem_values_iff,
    beq_iff_eq]
  constructor
  · rintro ⟨group, ⟨set, hset⟩, htexture⟩
    exact ⟨set, group, hset, htexture⟩
  · rintro ⟨set, group, hset, htexture⟩
    exact ⟨group, ⟨set, hset⟩, htexture⟩

instance : Decidable (host.HasMember name) :=
  decidable_of_iff _ providesValue_iff

instance : Decidable (host.HasTexture name) :=
  decidable_of_iff _ providesTexture_iff

end Host

/-! ## What the mesh set holds -/

namespace MeshInterface

variable {host : Host} {uniforms : List Uniform} {mesh : MeshInterface}

/-- The members of the block, if there is one. -/
def members (mesh : MeshInterface) : List Member :=
  mesh.block.toList.flatMap fun layout => layout.members.map PlacedMember.toMember

theorem ownValues_eq_filter (host : Host) (uniforms : List Uniform) :
    ownValues host uniforms =
      uniforms.filter fun u => u.isSampler = false ∧ ¬ host.HasMember u.name := by
  refine List.filter_congr fun u _ => ?_
  rw [Bool.eq_iff_iff, decide_eq_true_iff, ← Host.providesValue_iff, Uniform.isProvided]
  cases u.isSampler <;> simp

theorem ownTextures_eq_filter (host : Host) (uniforms : List Uniform) :
    ownTextures host uniforms =
      uniforms.filter fun u => u.isSampler = true ∧ ¬ host.HasTexture u.name := by
  refine List.filter_congr fun u _ => ?_
  rw [Bool.eq_iff_iff, decide_eq_true_iff, ← Host.providesTexture_iff, Uniform.isProvided]
  cases u.isSampler <;> simp

theorem block_eq_none_iff (h : ofUniforms host uniforms = .ok mesh) :
    mesh.block = none ↔ ownValues host uniforms = [] := by
  obtain ⟨-, members, hmembers, hblock, -, -⟩ := ofUniforms_eq_ok_iff.1 h
  rcases blockOf_eq_ok_iff.1 hblock with ⟨rfl, hnone⟩ | ⟨layout, hne, -, hsome⟩
  · simp [hnone, List.forall₂_nil_right_iff.1 hmembers]
  · have hvalues : ownValues host uniforms ≠ [] := by
      intro hnil
      rw [hnil] at hmembers
      exact hne (List.forall₂_nil_left_iff.1 hmembers)
    simp [hsome, hvalues]

theorem forall₂_members (h : ofUniforms host uniforms = .ok mesh) :
    List.Forall₂ (fun u m => u.toMember = .ok m) (ownValues host uniforms) mesh.members := by
  cases hblock : mesh.block with
  | none =>
    rw [(block_eq_none_iff h).1 hblock, members, hblock]
    exact .nil
  | some layout =>
    rw [members, hblock, Option.toList_some, List.flatMap_singleton]
    exact (members_of_block h hblock).1

theorem memberNames (h : ofUniforms host uniforms = .ok mesh) :
    mesh.members.map Member.name = (ownValues host uniforms).map Uniform.name :=
  map_eq_of_forall₂ Uniform.name_of_toMember (forall₂_members h)

/-- The mesh set holds exactly the uniforms that the host lacks. -/
structure Completes (mesh : MeshInterface) (host : Host) (uniforms : List Uniform) : Prop where
  /-- The members of the block are, in order, the values that no block of the host has. -/
  members : List.Forall₂
    (fun u m => ∃ type, ValueType.ofName? u.type = some type ∧ m = ⟨u.name, type, u.extent⟩)
    (uniforms.filter fun u => u.isSampler = false ∧ ¬ host.HasMember u.name) mesh.members
  noBlock : mesh.block = none ↔ ∀ u ∈ uniforms, u.isSampler = false → host.HasMember u.name
  /-- The textures are, in order, those that no bind group of the host has. -/
  textures : List.Forall₂
    (fun u t => ∃ sampler, Sampler.ofName? u.type = some sampler ∧ t.name = u.name ∧
      t.dimension = sampler.dimension)
    (uniforms.filter fun u => u.isSampler = true ∧ ¬ host.HasTexture u.name) mesh.group.textures
  nodup : (mesh.members.map Member.name ++ mesh.group.textures.map TextureSlot.name).Nodup
  membersApart : ∀ m ∈ mesh.members, ¬ host.HasMember m.name
  texturesApart : ∀ t ∈ mesh.group.textures, ¬ host.HasTexture t.name
  /-- A value is in the block or in one of the host, and not in both. -/
  valueOnce : ∀ u ∈ uniforms, u.isSampler = false →
    (u.name ∈ mesh.members.map Member.name ↔ ¬ host.HasMember u.name)
  textureOnce : ∀ u ∈ uniforms, u.isSampler = true →
    (u.name ∈ mesh.group.textures.map TextureSlot.name ↔ ¬ host.HasTexture u.name)

/-- Values and textures with distinct names stay apart when they are sorted into the mesh set. -/
theorem nodup_own (hnames : (uniforms.map Uniform.name).Nodup) :
    ((ownValues host uniforms).map Uniform.name ++
      (ownTextures host uniforms).map Uniform.name).Nodup := by
  rw [List.nodup_append]
  refine ⟨hnames.sublist (List.filter_sublist.map _), hnames.sublist (List.filter_sublist.map _), ?_⟩
  rintro _ hvalue _ htexture rfl
  obtain ⟨u, hu, rfl⟩ := List.mem_map.1 hvalue
  obtain ⟨v, hv, hname⟩ := List.mem_map.1 htexture
  rw [ownValues_eq_filter, List.mem_filter] at hu
  rw [ownTextures_eq_filter, List.mem_filter] at hv
  obtain rfl : v = u := List.inj_on_of_nodup_map hnames hv.1 hu.1 hname
  simp_all

/-- Names of the uniforms of one kind that something lacks are names that it lacks, and each uniform
of the kind is found on exactly one side. -/
theorem lacking_names {kind : Uniform → Prop} {has : String → Prop} {own : List Uniform}
    (hown : ∀ u, u ∈ own ↔ u ∈ uniforms ∧ kind u ∧ ¬ has u.name) :
    (∀ name ∈ own.map Uniform.name, ¬ has name) ∧
      ∀ u ∈ uniforms, kind u → (u.name ∈ own.map Uniform.name ↔ ¬ has u.name) := by
  have hlacks : ∀ name ∈ own.map Uniform.name, ¬ has name := by
    intro name hname
    obtain ⟨u, hu, rfl⟩ := List.mem_map.1 hname
    exact ((hown u).1 hu).2.2
  refine ⟨hlacks, fun u hu hkind => ⟨hlacks u.name, fun hlack => ?_⟩⟩
  exact List.mem_map_of_mem ((hown u).2 ⟨hu, hkind, hlack⟩)

theorem lacking_memberNames (h : ofUniforms host uniforms = .ok mesh) :
    (∀ name ∈ mesh.members.map Member.name, ¬ host.HasMember name) ∧
      ∀ u ∈ uniforms, u.isSampler = false →
        (u.name ∈ mesh.members.map Member.name ↔ ¬ host.HasMember u.name) := by
  rw [memberNames h]
  refine lacking_names fun u => ?_
  rw [ownValues_eq_filter, List.mem_filter, decide_eq_true_eq]

theorem lacking_textureNames (h : ofUniforms host uniforms = .ok mesh) :
    (∀ name ∈ mesh.group.textures.map TextureSlot.name, ¬ host.HasTexture name) ∧
      ∀ u ∈ uniforms, u.isSampler = true →
        (u.name ∈ mesh.group.textures.map TextureSlot.name ↔ ¬ host.HasTexture u.name) := by
  rw [names_textures h]
  refine lacking_names fun u => ?_
  rw [ownTextures_eq_filter, List.mem_filter, decide_eq_true_eq]

theorem completes_of_ofUniforms (hnames : (uniforms.map Uniform.name).Nodup)
    (h : ofUniforms host uniforms = .ok mesh) : mesh.Completes host uniforms := by
  obtain ⟨-, -, -, -, -, htextures⟩ := ofUniforms_eq_ok_iff.1 h
  constructor
  case members =>
    rw [← ownValues_eq_filter]
    exact (forall₂_members h).imp fun u m hm => Uniform.toMember_eq_ok_iff.1 hm
  case noBlock =>
    rw [block_eq_none_iff h, ownValues_eq_filter]
    simp
  case textures =>
    rw [← ownTextures_eq_filter]
    refine htextures.imp fun u t ht => ?_
    obtain ⟨sampler, hsampler, rfl⟩ := Uniform.toTexture_eq_ok_iff.1 ht
    exact ⟨sampler, hsampler, rfl, rfl⟩
  case nodup =>
    rw [memberNames h, names_textures h]
    exact nodup_own hnames
  case membersApart =>
    exact fun m hm => (lacking_memberNames h).1 m.name (List.mem_map_of_mem hm)
  case texturesApart =>
    exact fun t ht => (lacking_textureNames h).1 t.name (List.mem_map_of_mem ht)
  case valueOnce => exact (lacking_memberNames h).2
  case textureOnce => exact (lacking_textureNames h).2

end MeshInterface

/-! ## Bound shaders -/

namespace Shader

/-- The mesh set of a bound shader holds exactly what the host lacks of the uniforms that its two
stages declare. -/
theorem mesh_completes_host {policy : Policy} {host : Host} {shader : Shader} {bound : BoundShader}
    (hrun : (shader.bind policy host).outcome = .ok bound) :
    bound.mesh.Completes host (MergedUniforms.ofStages (Source.strip shader.vertex).uniforms
      (Source.strip shader.fragment).uniforms).uniforms := by
  obtain ⟨hmesh, -⟩ := outcome_eq_ok_iff.1 hrun
  exact MeshInterface.completes_of_ofUniforms (MergedUniforms.sound_ofStages _ _).nodup hmesh

/-- A host with gaps between its sets, and with a block and a bind group in one set. -/
def sparseHost : Host where
  blocks := [none, some ⟨[⟨⟨"fog", .vector .float .four, .single⟩, 0⟩], 16⟩, none, none,
    some ⟨[⟨⟨"sun", .vector .float .three, .single⟩, 0⟩], 16⟩]
  groups := [none, some ⟨[⟨"default", .all⟩], [⟨"albedo", .all, .d2, .float⟩]⟩, none,
    some ⟨[], [⟨"noise", .all, .d2, .float⟩]⟩]

/-- A shader that uses a value and a texture of the host, and has a texture with the name of a value
of the host, a value with the name of a texture of the host, and a uniform of both stages. -/
def fogShader : Shader where
  label := none
  vertex := "uniform vec3 sun;uniform mat4 bones[4];uniform sampler2D fog;"
  fragment := "uniform vec4 albedo;uniform mat4 bones[4];uniform sampler2D noise;"
  semantics := ∅

theorem mesh_completes_host_fogShader :
    ∃ bound, (fogShader.bind {} sparseHost).outcome = .ok bound ∧
      bound.mesh.members =
        [⟨"bones", .matrix .four, .array 4 (by decide)⟩, ⟨"albedo", .vector .float .four, .single⟩] ∧
      bound.mesh.group.textures = [⟨"fog", .all, .d2, .float⟩] ∧
      bound.mesh.Completes sparseHost
        (MergedUniforms.ofStages (Source.strip fogShader.vertex).uniforms
          (Source.strip fogShader.fragment).uniforms).uniforms := by
  have hvertex : Source.strip fogShader.vertex =
      ⟨"@@@\n", [], [], [], ["vec3 sun", "mat4 bones[4]", "sampler2D fog"]⟩ := by
    decide +kernel
  have hfragment : Source.strip fogShader.fragment =
      ⟨"@@@\n", [], [], [], ["vec4 albedo", "mat4 bones[4]", "sampler2D noise"]⟩ := by
    decide +kernel
  have hmesh : (fogShader.bind {} sparseHost).outcome.toOption.map
      (fun b => (b.mesh.members, b.mesh.group.textures)) =
      some ([⟨"bones", .matrix .four, .array 4 (by decide)⟩,
        ⟨"albedo", .vector .float .four, .single⟩], [⟨"fog", .all, .d2, .float⟩]) := by
    unfold bind
    rw [hvertex, hfragment]
    decide +kernel
  cases hrun : (fogShader.bind {} sparseHost).outcome with
  | error failure =>
    rw [hrun] at hmesh
    cases hmesh
  | ok bound =>
    rw [hrun] at hmesh
    obtain ⟨hmembers, htextures⟩ := Prod.mk.inj (Option.some.inj hmesh)
    exact ⟨bound, rfl, hmembers, htextures, mesh_completes_host hrun⟩

end Shader

end GlslLayout
