import GlslLayout.Proofs.Uniform
import GlslLayout.Uniform.Mesh
import Mathlib.Data.List.Forall2

/-!
What the mesh set is made of.

* `MeshInterface.ofUniforms_eq_ok_iff`: when there is a mesh set, and which.
* `MeshInterface.members_of_block`: the members of the block are the values that the host does not
  provide.
* `MeshInterface.nodup_textures`: the textures of the mesh set have distinct names.
-/

namespace GlslLayout

set_option autoImplicit false

/-! ## Making the mesh set -/

theorem bind_eq_ok_iff {α β ε : Type} {x : Except ε α} {f : α → Except ε β} {b : β} :
    x >>= f = .ok b ↔ ∃ a, x = .ok a ∧ f a = .ok b := by
  cases x <;> simp [bind, Except.bind]

theorem bind_eq_error_iff {α β ε : Type} {x : Except ε α} {f : α → Except ε β} {e : ε} :
    x >>= f = .error e ↔ x = .error e ∨ ∃ a, x = .ok a ∧ f a = .error e := by
  cases x <;> simp [bind, Except.bind]

theorem mapM_eq_ok_iff {α β ε : Type} {f : α → Except ε β} {l : List α} {r : List β} :
    l.mapM f = .ok r ↔ List.Forall₂ (fun a b => f a = .ok b) l r := by
  induction l generalizing r with
  | nil => simp [pure, Except.pure, eq_comm]
  | cons a l ih =>
    simp only [List.mapM_cons, bind_eq_ok_iff, List.forall₂_cons_left_iff, ih, pure, Except.pure,
      Except.ok.injEq]
    constructor
    · rintro ⟨b, hb, bs, hbs, rfl⟩
      exact ⟨b, bs, hb, hbs, rfl⟩
    · rintro ⟨b, bs, hb, hbs, rfl⟩
      exact ⟨b, hb, bs, hbs, rfl⟩

theorem exists_of_mem_forall₂ {α β : Type} {r : α → β → Prop} {l : List α} {m : List β} {a : α}
    (h : List.Forall₂ r l m) (ha : a ∈ l) : ∃ b ∈ m, r a b := by
  induction h with
  | nil => cases ha
  | cons hab _ ih =>
    rcases List.mem_cons.1 ha with rfl | ha
    · exact ⟨_, List.mem_cons_self, hab⟩
    · obtain ⟨b, hb, hrb⟩ := ih ha
      exact ⟨b, List.mem_cons_of_mem _ hb, hrb⟩

namespace Uniform

theorem toMember_eq_ok_iff {u : Uniform} {m : Member} :
    u.toMember = .ok m ↔
      ∃ type, ValueType.ofName? u.type = some type ∧ m = ⟨u.name, type, u.extent⟩ := by
  unfold toMember
  cases ValueType.ofName? u.type <;> simp [eq_comm]

theorem name_of_toMember (u : Uniform) (m : Member) (h : u.toMember = .ok m) : m.name = u.name := by
  obtain ⟨_, -, rfl⟩ := toMember_eq_ok_iff.1 h
  rfl

theorem toTexture_eq_ok_iff {u : Uniform} {t : TextureSlot} :
    u.toTexture = .ok t ↔
      ∃ sampler, Sampler.ofName? u.type = some sampler ∧
        t = ⟨u.name, .all, sampler.dimension, u.delivers sampler⟩ := by
  unfold toTexture
  cases Sampler.ofName? u.type <;> simp [eq_comm]

end Uniform

theorem BlockLayout.place_members {members : List Member} {layout : BlockLayout}
    (h : place members = .ok layout) : layout.members.map PlacedMember.toMember = members := by
  unfold place at h
  split at h
  · cases h
  · next hplace =>
    split at h
    · cases h
    · obtain rfl := Except.ok.inj h
      exact placeFrom_members hplace

namespace MeshInterface

theorem blockOf_eq_ok_iff {members : List Member} {block : Option BlockLayout} :
    blockOf members = .ok block ↔
      (members = [] ∧ block = none) ∨
        ∃ layout, members ≠ [] ∧ BlockLayout.place members = .ok layout ∧ block = some layout := by
  unfold blockOf
  cases members with
  | nil => simp [eq_comm]
  | cons m members =>
    simp only [List.isEmpty_cons, Bool.false_eq_true, if_false, reduceCtorEq, false_and, false_or,
      ne_eq, not_false_eq_true, true_and]
    cases BlockLayout.place (m :: members) <;> simp [eq_comm]

theorem ofUniforms_eq_ok_iff {host : Host} {uniforms : List Uniform} {mesh : MeshInterface} :
    ofUniforms host uniforms = .ok mesh ↔
      host.occupies meshSet = false ∧
      ∃ members, List.Forall₂ (fun u m => u.toMember = .ok m) (ownValues host uniforms) members ∧
        blockOf members = .ok mesh.block ∧
        mesh.group.buffers = buffersOf mesh.block ∧
        List.Forall₂ (fun u t => u.toTexture = .ok t) (ownTextures host uniforms)
          mesh.group.textures := by
  unfold ofUniforms
  cases host.occupies meshSet with
  | true => simp
  | false =>
    simp only [Bool.false_eq_true, if_false, true_and, bind_eq_ok_iff, mapM_eq_ok_iff, pure,
      Except.pure, Except.ok.injEq]
    constructor
    · rintro ⟨members, hmembers, block, hblock, textures, htextures, rfl⟩
      exact ⟨members, hmembers, hblock, rfl, htextures⟩
    · rintro ⟨members, hmembers, hblock, hbuffers, htextures⟩
      refine ⟨members, hmembers, mesh.block, hblock, mesh.group.textures, htextures, ?_⟩
      rw [← hbuffers]

/-! ## Names in the mesh set -/

theorem map_eq_of_forall₂ {α β γ : Type} {r : α → β → Prop} {f : α → γ} {g : β → γ} {l : List α}
    {m : List β} (hr : ∀ a b, r a b → g b = f a) (h : List.Forall₂ r l m) : m.map g = l.map f := by
  induction h with
  | nil => rfl
  | cons hab _ ih => rw [List.map_cons, List.map_cons, hr _ _ hab, ih]

theorem names_textures {host : Host} {uniforms : List Uniform} {mesh : MeshInterface}
    (h : ofUniforms host uniforms = .ok mesh) :
    mesh.group.textures.map TextureSlot.name = (ownTextures host uniforms).map Uniform.name := by
  obtain ⟨-, members, -, -, -, htextures⟩ := ofUniforms_eq_ok_iff.1 h
  refine map_eq_of_forall₂ ?_ htextures
  intro u t ht
  obtain ⟨_, -, rfl⟩ := Uniform.toTexture_eq_ok_iff.1 ht
  rfl

theorem members_of_block {host : Host} {uniforms : List Uniform} {mesh : MeshInterface}
    (h : ofUniforms host uniforms = .ok mesh) {layout : BlockLayout}
    (hblock : mesh.block = some layout) :
    List.Forall₂ (fun u m => u.toMember = .ok m) (ownValues host uniforms)
        (layout.members.map PlacedMember.toMember) ∧
      blockOf (layout.members.map PlacedMember.toMember) = .ok (some layout) := by
  obtain ⟨-, members, hmembers, hplaced, -, -⟩ := ofUniforms_eq_ok_iff.1 h
  rw [hblock] at hplaced
  rcases blockOf_eq_ok_iff.1 hplaced with ⟨-, hnone⟩ | ⟨layout', -, hplace, hsome⟩
  · cases hnone
  · obtain rfl := Option.some.inj hsome
    rw [BlockLayout.place_members hplace]
    exact ⟨hmembers, hplaced⟩

theorem names_members {host : Host} {uniforms : List Uniform} {mesh : MeshInterface}
    (h : ofUniforms host uniforms = .ok mesh) {layout : BlockLayout}
    (hblock : mesh.block = some layout) :
    (layout.members.map PlacedMember.toMember).map Member.name =
      (ownValues host uniforms).map Uniform.name :=
  map_eq_of_forall₂ Uniform.name_of_toMember (members_of_block h hblock).1

theorem buffers_of_block {host : Host} {uniforms : List Uniform} {mesh : MeshInterface}
    (h : ofUniforms host uniforms = .ok mesh) : mesh.group.buffers = buffersOf mesh.block := by
  obtain ⟨-, _, -, -, hbuffers, -⟩ := ofUniforms_eq_ok_iff.1 h
  exact hbuffers

theorem nodup_textures {host : Host} {m : MergedUniforms} (hm : m.Sound) {mesh : MeshInterface}
    (h : ofUniforms host m.uniforms = .ok mesh) :
    (mesh.group.textures.map TextureSlot.name).Nodup := by
  rw [names_textures h]
  exact hm.nodup.sublist (List.filter_sublist.map Uniform.name)

end MeshInterface

end GlslLayout
