import GlslLayout.Proofs.MeshText

/-!
When two declarations of the uniforms have the same address.

* `SetTable.pairwise_entries`: a set has one entry.
* `Host.mem_textureAddresses_iff`: the bindings that the textures of the host take in a set.
* `Host.nodup_addresses_iff`: the host binds nothing twice, unless it leaves no room for a block.
* `MeshInterface.nodup_lineAddresses_iff`: the same about the lines that declare all uniforms.
-/

namespace GlslLayout

set_option autoImplicit false

theorem SetTable.pairwise_entries {α : Type} (t : SetTable α) :
    (entries t).Pairwise fun e f => e.1 ≠ f.1 := by
  have hslots : t.zipIdx.Pairwise fun e f => e.2 ≠ f.2 := by
    rw [← List.pairwise_map, List.zipIdx_map_snd]
    exact List.nodup_range'
  refine List.Pairwise.filterMap _ ?_ hslots
  rintro ⟨slot, i⟩ ⟨slot', j⟩ hne e he f hf
  obtain ⟨a, -, rfl⟩ := Option.map_eq_some_iff.1 he
  obtain ⟨b, -, rfl⟩ := Option.map_eq_some_iff.1 hf
  exact hne

/-! ## Addresses of textures -/

theorem BindGroup.addresses_textureStatements (g : BindGroup) (set : Nat) :
    (g.textureStatements set).filterMap Statement.address? =
      (List.range' g.buffers.length (2 * g.textures.length)).map fun b => ⟨set, b⟩ := by
  rw [← addresses_resources, filterMap_textureStatements _ _ fun _ _ => rfl]

theorem BindGroup.nodup_textureAddresses (g : BindGroup) (set : Nat) :
    ((g.textureStatements set).filterMap Statement.address?).Nodup := by
  rw [addresses_textureStatements]
  refine List.Nodup.map ?_ List.nodup_range'
  intro b c h
  exact (Address.mk.inj h).2

theorem BindGroup.mem_textureAddresses_iff {g : BindGroup} {set : Nat} {address : Address} :
    address ∈ (g.textureStatements set).filterMap Statement.address? ↔
      address.set = set ∧ g.buffers.length ≤ address.binding ∧
        address.binding < g.buffers.length + 2 * g.textures.length := by
  rw [addresses_textureStatements, List.mem_map]
  constructor
  · rintro ⟨b, hb, rfl⟩
    exact ⟨rfl, List.mem_range'_1.1 hb⟩
  · rintro ⟨rfl, hb⟩
    exact ⟨address.binding, List.mem_range'_1.2 hb, rfl⟩

/-! ## Addresses of the host -/

namespace Host

variable {host : Host}

theorem mem_blockAddresses_iff {address : Address} :
    address ∈ host.blockStatements.filterMap Statement.address? ↔
      ∃ layout, SetTable.get? host.blocks address.set = some layout ∧ address.binding = 0 := by
  rw [blockStatements, List.filterMap_map, List.mem_filterMap]
  constructor
  · rintro ⟨⟨set, layout⟩, hentry, haddress⟩
    obtain rfl := Option.some.inj haddress
    exact ⟨layout, SetTable.mem_entries_iff.1 hentry, rfl⟩
  · rintro ⟨layout, hentry, hbinding⟩
    refine ⟨(address.set, layout), SetTable.mem_entries_iff.2 hentry, ?_⟩
    rw [← hbinding]
    rfl

theorem nodup_blockAddresses (host : Host) :
    (host.blockStatements.filterMap Statement.address?).Nodup := by
  rw [blockStatements, List.filterMap_map]
  refine List.Pairwise.filterMap _ ?_ (SetTable.pairwise_entries host.blocks)
  rintro e f hne a ha b hb rfl
  obtain rfl := Option.some.inj ha
  exact hne (Address.mk.inj (Option.some.inj hb)).1.symm

theorem mem_textureAddresses_iff {address : Address} :
    address ∈ host.textureStatements.filterMap Statement.address? ↔
      ∃ group, SetTable.get? host.groups address.set = some group ∧
        group.buffers.length ≤ address.binding ∧
        address.binding < group.buffers.length + 2 * group.textures.length := by
  rw [textureStatements, List.filterMap_flatMap, List.mem_flatMap]
  constructor
  · rintro ⟨⟨set, group⟩, hentry, hmem⟩
    obtain ⟨rfl, hbinding⟩ := BindGroup.mem_textureAddresses_iff.1 hmem
    exact ⟨group, SetTable.mem_entries_iff.1 hentry, hbinding⟩
  · rintro ⟨group, hentry, hbinding⟩
    exact ⟨(address.set, group), SetTable.mem_entries_iff.2 hentry,
      BindGroup.mem_textureAddresses_iff.2 ⟨rfl, hbinding⟩⟩

theorem nodup_textureAddresses (host : Host) :
    (host.textureStatements.filterMap Statement.address?).Nodup := by
  rw [textureStatements, List.filterMap_flatMap, List.nodup_flatMap]
  refine ⟨fun e _ => BindGroup.nodup_textureAddresses e.2 e.1, ?_⟩
  refine (SetTable.pairwise_entries host.groups).imp ?_
  intro e f hne address he hf
  have hset := (BindGroup.mem_textureAddresses_iff.1 he).1
  exact hne (hset.symm.trans (BindGroup.mem_textureAddresses_iff.1 hf).1)

/-- A set with a block has its first binding taken twice if its textures start there. -/
theorem nodup_addresses_iff :
    ((host.blockStatements ++ host.textureStatements).filterMap Statement.address?).Nodup ↔
      ¬ ∃ set layout group, SetTable.get? host.blocks set = some layout ∧
        SetTable.get? host.groups set = some group ∧ group.buffers = [] ∧
        group.textures ≠ [] := by
  rw [List.filterMap_append, List.nodup_append']
  constructor
  · rintro ⟨-, -, hdisjoint⟩ ⟨set, layout, group, hblock, hgroup, hbuffers, htextures⟩
    have hroom := List.length_pos_iff.2 htextures
    refine hdisjoint (a := ⟨set, 0⟩) (mem_blockAddresses_iff.2 ⟨layout, hblock, rfl⟩)
      (mem_textureAddresses_iff.2 ⟨group, hgroup, ?_, ?_⟩)
    · rw [hbuffers]
      exact Nat.le_refl 0
    · show 0 < _
      omega
  · intro hroom
    refine ⟨nodup_blockAddresses host, nodup_textureAddresses host, ?_⟩
    intro address hblocks htextures
    obtain ⟨layout, hblock, hbinding⟩ := mem_blockAddresses_iff.1 hblocks
    obtain ⟨group, hgroup, hfrom, hto⟩ := mem_textureAddresses_iff.1 htextures
    rw [hbinding] at hfrom hto
    have hbuffers : group.buffers = [] := List.eq_nil_of_length_eq_zero (Nat.le_zero.1 hfrom)
    refine hroom ⟨address.set, layout, group, hblock, hgroup, hbuffers, ?_⟩
    rintro hnone
    rw [hbuffers, hnone] at hto
    exact Nat.lt_irrefl 0 hto

theorem occupies_of_mem_addresses {address : Address}
    (h : address ∈ (host.blockStatements ++ host.textureStatements).filterMap Statement.address?) :
    host.occupies address.set = true := by
  rw [List.filterMap_append, List.mem_append] at h
  rcases h with h | h
  · obtain ⟨layout, hentry, -⟩ := mem_blockAddresses_iff.1 h
    simp [occupies, hentry]
  · obtain ⟨group, hentry, -⟩ := mem_textureAddresses_iff.1 h
    simp [occupies, hentry]

end Host

/-! ## Addresses of all uniforms -/

theorem linesStarting_layout {ss : List Statement} (hss : ∀ s ∈ ss, s.Spelled (· ≠ '\n')) :
    linesStarting "layout(set = " (Statement.code ss) = ss.filterMap Statement.heading? := by
  show linesStarting layoutStart (Statement.code ss) = _
  rw [linesStarting_code (List.prefix_refl _) hss, List.filter_eq_self]
  intro line hline
  obtain ⟨s, -, hs⟩ := List.mem_filterMap.1 hline
  obtain ⟨address, ending, -, rfl, -⟩ := Statement.heading?_eq_some hs
  rw [List.isPrefixOf_iff_prefix, toList_heading]
  exact List.prefix_append _ _

theorem lineAddresses_code {ss : List Statement} (hss : ∀ s ∈ ss, s.Spelled (· ≠ '\n')) :
    (linesStarting "layout(set = " (Statement.code ss)).map lineAddress? =
      (ss.filterMap Statement.address?).map some := by
  rw [linesStarting_layout hss, Statement.map_lineAddress?_headings]

namespace MeshInterface

variable {host : Host} {uniforms : List Uniform} {mesh : MeshInterface}

theorem addresses_own (h : mesh.group.buffers = buffersOf mesh.block) :
    (mesh.block.toList.map (BlockLayout.statement · ⟨meshSet, 0⟩) ++
        mesh.group.textureStatements meshSet).filterMap Statement.address? =
      (List.range mesh.group.bindingCount).map fun b => ⟨meshSet, b⟩ := by
  rw [← addresses_ownStatements h, ownStatements, List.filterMap_append, List.filterMap_append,
    BindGroup.addresses_textureStatements, BindGroup.addresses_resources]

/-- The mesh set is free, so it adds no address that the host has. -/
theorem nodup_addresses_statements_iff (h : ofUniforms host uniforms = .ok mesh) :
    ((mesh.statements host).filterMap Statement.address?).Nodup ↔
      ((host.blockStatements ++ host.textureStatements).filterMap Statement.address?).Nodup := by
  obtain ⟨hfree, -⟩ := ofUniforms_eq_ok_iff.1 h
  let own := mesh.block.toList.map (BlockLayout.statement · ⟨meshSet, 0⟩)
  have hperm : (mesh.statements host).Perm ((host.blockStatements ++ host.textureStatements) ++
      (own ++ mesh.group.textureStatements meshSet)) := by
    have hswap : (own ++ host.textureStatements).Perm (host.textureStatements ++ own) :=
      List.perm_append_comm
    have hfront := hswap.append_left host.blockStatements
    have hall := hfront.append_right (mesh.group.textureStatements meshSet)
    simpa only [statements, List.append_assoc] using hall
  rw [(hperm.filterMap _).nodup_iff, List.filterMap_append, List.nodup_append',
    addresses_own (buffers_of_block h)]
  constructor
  · rintro ⟨hhost, -⟩
    exact hhost
  · intro hhost
    refine ⟨hhost, List.Nodup.map (fun b c hbc => (Address.mk.inj hbc).2) List.nodup_range, ?_⟩
    intro address hhost hmesh
    obtain ⟨b, -, rfl⟩ := List.mem_map.1 hmesh
    have htaken := Host.occupies_of_mem_addresses hhost
    rw [hfree] at htaken
    cases htaken

/-- The lines that declare the uniforms have distinct addresses exactly if the host nowhere has a
block in the set of a group that leaves no room for a buffer in front of its textures. -/
theorem nodup_lineAddresses_iff (hnames : host.NamesOver (· ≠ '\n'))
    (huniforms : ∀ u ∈ uniforms, NoBreak u.name) (h : ofUniforms host uniforms = .ok mesh) :
    ((linesStarting "layout(set = " (Statement.code (mesh.statements host))).map
        lineAddress?).Nodup ↔
      ¬ ∃ set layout group, SetTable.get? host.blocks set = some layout ∧
        SetTable.get? host.groups set = some group ∧ group.buffers = [] ∧
        group.textures ≠ [] := by
  rw [lineAddresses_code (oneLine_of_noBreak hnames huniforms h),
    List.nodup_map_iff (fun _ _ => Option.some.inj), nodup_addresses_statements_iff h,
    Host.nodup_addresses_iff]

/-- A host that has a block and a texture in one set, which has room for the given buffers. -/
def sharedSetHost (buffers : List BufferSlot) : Host where
  blocks := [none, some ⟨[⟨⟨"view", .matrix .four, .single⟩, 0⟩], 64⟩]
  groups := [none, some ⟨buffers, [⟨"albedo", .all, .d2, .float⟩]⟩]

/-- What a shader with a value and a texture of its own adds to it. -/
def sharedSetMesh : MeshInterface where
  block := some ⟨[⟨⟨"time", .scalar .float, .single⟩, 0⟩], 16⟩
  group := ⟨[⟨"default", .all⟩], [⟨"noise", .all, .d2, .float⟩]⟩

theorem nodup_lineAddresses_iff_sharedSetHost :
    ¬ ((linesStarting "layout(set = " (Statement.code
      (sharedSetMesh.statements (sharedSetHost [])))).map lineAddress?).Nodup ∧
    ((linesStarting "layout(set = " (Statement.code
      (sharedSetMesh.statements (sharedSetHost [⟨"default", .all⟩])))).map lineAddress?).Nodup := by
  let uniforms := (MergedUniforms.ofStages ["float time"] ["sampler2D noise"]).uniforms
  have huniforms : ∀ u ∈ uniforms, NoBreak u.name := by decide +kernel
  constructor
  · have hnames : (sharedSetHost []).NamesOver (· ≠ '\n') := ⟨by decide, by decide⟩
    have hmesh : ofUniforms (sharedSetHost []) uniforms = .ok sharedSetMesh := by decide +kernel
    rw [nodup_lineAddresses_iff hnames huniforms hmesh, not_not]
    exact ⟨1, _, _, rfl, rfl, rfl, by decide⟩
  · have hnames : (sharedSetHost [⟨"default", .all⟩]).NamesOver (· ≠ '\n') := ⟨by decide, by decide⟩
    have hmesh : ofUniforms (sharedSetHost [⟨"default", .all⟩]) uniforms = .ok sharedSetMesh := by
      decide +kernel
    rw [nodup_lineAddresses_iff hnames huniforms hmesh]
    rintro ⟨set, layout, group, -, hgroup, hbuffers, -⟩
    -- the one group of the host has a buffer
    have hmem := SetTable.mem_values_of_mem_entries (SetTable.mem_entries_iff.2 hgroup)
    obtain rfl := List.mem_singleton.1 hmem
    cases hbuffers

end MeshInterface

end GlslLayout
