import GlslLayout.Proofs.Outcome
import GlslLayout.Proofs.Redeclaration

/-!
The size check of a uniform array and the size check of its block give the same verdict.

* `BlockLayout.byteSize_std140_singleton`: a block of one member takes the bytes of the member,
  rounded up.
* `ValueType.blockAlignment_dvd_stride`: nothing is rounded if the member is an array.
* `Uniform.single_fits`: whatever was read as a uniform fits into a block of its own.
* `sizeChecks_agree`: the two checks agree, so only a block of several members can overflow.
-/

namespace GlslLayout

set_option autoImplicit false

/-! ## Blocks of one member -/

theorem alignUp_of_dvd {n a : Nat} (h : a ∣ n) : alignUp n a = n :=
  if_pos (Nat.mod_eq_zero_of_dvd h)

theorem ValueType.blockAlignment_dvd_stride (type : ValueType) :
    ValueType.blockAlignment ∣ type.stride :=
  Nat.dvd_of_mod_eq_zero (alignUp_mod (by decide) type.size)

theorem ValueType.size_le (type : ValueType) : type.size ≤ 64 := by
  rcases type with c | ⟨c, w⟩ | w
  · simp [ValueType.size]
  · cases w <;> simp [ValueType.size, Width.toNat]
  · cases w <;> simp [ValueType.size, Width.toNat]

theorem ValueType.strideOf_name (type : ValueType) :
    ValueType.strideOf type.name = type.stride := by
  rw [ValueType.strideOf, ValueType.ofName?_name]
  rfl

theorem BlockLayout.byteSize_std140_singleton (m : Member) :
    (std140 [m]).byteSize = alignUp m.byteSize ValueType.blockAlignment := by
  have hstart : alignUp 0 m.alignment = 0 := alignUp_of_dvd (Nat.dvd_zero _)
  have hstop : stopAfter 0 (std140From 0 [m]) = m.byteSize := by
    simp [stopAfter, std140From, PlacedMember.stop_eq, hstart]
  rw [std140, hstop]

/-- Rounding up an array changes nothing, and a single value is far from the end of the range. -/
theorem BlockLayout.byteSize_std140_singleton_le_iff (m : Member) :
    (std140 [m]).byteSize ≤ maxWord ↔ m.byteSize ≤ maxWord := by
  obtain ⟨name, type, extent⟩ := m
  rw [byteSize_std140_singleton]
  cases extent with
  | array n h =>
    have hdvd := Nat.dvd_trans type.blockAlignment_dvd_stride (Nat.dvd_mul_right type.stride n)
    simp only [Member.byteSize, alignUp_of_dvd hdvd]
  | single =>
    have hsize : type.size ≤ 64 := type.size_le
    have hround := alignUp_lt (by decide : 0 < ValueType.blockAlignment) type.size
    have halign : ValueType.blockAlignment = 16 := rfl
    simp only [Member.byteSize, maxWord_eq]
    omega

theorem BlockLayout.exists_place_singleton_iff (m : Member) :
    (∃ layout, place [m] = .ok layout) ↔ m.byteSize ≤ maxWord := by
  rw [← byteSize_std140_singleton_le_iff]
  simp [place_eq_ok_iff]

theorem BlockLayout.exists_overflow_singleton_iff (m : Member) :
    (∃ overflow, place [m] = .error overflow) ↔ maxWord < m.byteSize := by
  rw [← Nat.not_le, ← byteSize_std140_singleton_le_iff, Nat.not_le]
  simp [place_eq_error_iff]

/-! ## Uniforms that were read -/

namespace Uniform

theorem readExtent_of_count {type : String} {size : List Char} {n : Nat} (hpos : 0 < n)
    (hcount : Text.readCount? size = some n) :
    readExtent type size =
      if ValueType.strideOf type * n ≤ maxWord then .ok (.array n hpos)
      else .error (.arrayTooLarge n) := by
  by_cases hfits : ValueType.strideOf type * n ≤ maxWord
  · simp [readExtent, hcount, hpos, inWord?, hfits]
  · simp [readExtent, hcount, hpos, inWord?, hfits]

/-- An array that was read passed the size check. -/
theorem stride_mul_count_le {line : String} {u : Uniform} (h : read? line = some u) :
    ValueType.strideOf u.type * u.extent.count ≤ maxWord := by
  obtain ⟨precision, word, rest, name, extent, -, hread, rfl⟩ := read?_eq_some_iff.1 h
  rcases readDeclarator_eq_ok_iff.1 hread with ⟨-, -, -, rfl⟩ | ⟨-, size, -, hextent⟩
  · exact Nat.zero_le _
  · obtain ⟨n, hpos, -, hfits, rfl⟩ := readExtent_eq_ok_iff.1 hextent
    exact hfits

theorem single_fits {line : String} {u : Uniform} {m : Member} (h : read? line = some u)
    (hm : u.member? = some m) : (BlockLayout.std140 [m]).byteSize ≤ maxWord := by
  obtain ⟨type, htype, rfl⟩ := Option.map_eq_some_iff.1 hm
  rw [BlockLayout.byteSize_std140_singleton_le_iff]
  have hfits := stride_mul_count_le h
  rw [← ValueType.ofName?_eq_some_iff.1 htype, ValueType.strideOf_name] at hfits
  cases hextent : u.extent with
  | single =>
    have hsize := type.size_le
    simp only [Member.byteSize, maxWord_eq]
    omega
  | array n hpos =>
    rw [hextent] at hfits
    exact hfits

end Uniform

/-! ## Overflow of the mesh block -/

namespace MeshInterface

/-- Of the failures of the uniforms only one is about the size of the block. -/
theorem byteSize_of_blockOverflow {host : Host} {uniforms : List Uniform} {overflow : BlockOverflow}
    (h : ofUniforms host uniforms = .error (.blockOverflow overflow)) :
    maxWord < (BlockLayout.std140 ((uniforms.filter fun u =>
      u.isSampler = false ∧ ¬ host.HasMember u.name).filterMap Uniform.member?)).byteSize := by
  have hchecks := ofUniforms_checks host uniforms
  cases hfound : (checks host uniforms).findSome? id with
  | none =>
    rw [hfound] at hchecks
    obtain ⟨mesh, hok⟩ := hchecks
    rw [h] at hok
    cases hok
  | some failure =>
    rw [hfound] at hchecks
    rw [h] at hchecks
    obtain rfl := Except.error.inj hchecks
    obtain ⟨check, hcheck, hsome⟩ := List.exists_of_findSome?_eq_some hfound
    simp only [id] at hsome
    subst hsome
    simp only [checks, List.mem_cons, List.not_mem_nil, or_false] at hcheck
    rcases hcheck with hset | htype | hsize | hsampler
    · split at hset
      · cases hset
      · cases hset
    · obtain ⟨u, -, hu⟩ := Option.map_eq_some_iff.1 htype.symm
      cases hu
    · split at hsize
      · cases hsize
      · rw [maxWord_eq]
        omega
    · obtain ⟨u, -, hu⟩ := Option.map_eq_some_iff.1 hsampler.symm
      cases hu

/-- A single value of a shader never leaves the range. -/
theorem two_le_length_of_blockOverflow {host : Host} {uniforms : List Uniform}
    {overflow : BlockOverflow} (hread : ∀ u ∈ uniforms, Uniform.read? u.line = some u)
    (h : ofUniforms host uniforms = .error (.blockOverflow overflow)) :
    2 ≤ (uniforms.filter fun u => u.isSampler = false ∧ ¬ host.HasMember u.name).length := by
  have hsize := byteSize_of_blockOverflow h
  have hvalues : ∀ u ∈ uniforms.filter fun u => u.isSampler = false ∧ ¬ host.HasMember u.name,
      Uniform.read? u.line = some u := fun u hu => hread u (List.mem_filter.1 hu).1
  by_contra hfew
  cases hown : uniforms.filter fun u => u.isSampler = false ∧ ¬ host.HasMember u.name with
  | nil =>
    rw [hown] at hsize
    exact absurd hsize (by decide)
  | cons u rest =>
    rw [hown] at hsize hvalues hfew
    have hrest : rest = [] := by
      rw [List.length_cons] at hfew
      exact List.length_eq_zero_iff.1 (by omega)
    subst hrest
    cases hm : u.member? with
    | none =>
      rw [List.filterMap_cons_none hm] at hsize
      exact absurd hsize (by decide)
    | some m =>
      have hfits := Uniform.single_fits (hvalues u (by simp)) hm
      rw [List.filterMap_cons_some hm, List.filterMap_nil] at hsize
      omega

end MeshInterface

/-! ## The two checks -/

/-- For every type and every size that a 32-bit word can say, an array passes the check of the
reader exactly if a block of it alone can be laid out. So the block of a shader overflows only if at
least two values are in it. -/
theorem sizeChecks_agree :
    (∀ (type : ValueType) (n : Nat) (hpos : 0 < n), n ≤ 4294967295 →
      (∃ size, Text.readCount? size = some n) ∧
      ∀ (size : List Char) (name : String), Text.readCount? size = some n →
        (Uniform.readExtent type.name size = .ok (.array n hpos) ↔
          ∃ layout, BlockLayout.place [⟨name, type, .array n hpos⟩] = .ok layout) ∧
        (Uniform.readExtent type.name size = .error (.arrayTooLarge n) ↔
          ∃ overflow, BlockLayout.place [⟨name, type, .array n hpos⟩] = .error overflow)) ∧
    ∀ (vertex fragment : List String) (host : Host) (overflow : BlockOverflow),
      MeshInterface.ofUniforms host (MergedUniforms.ofStages vertex fragment).uniforms =
        .error (.blockOverflow overflow) →
      2 ≤ ((MergedUniforms.ofStages vertex fragment).uniforms.filter fun u =>
        u.isSampler = false ∧ ¬ host.HasMember u.name).length := by
  constructor
  · intro type n hpos hword
    have hcount : Text.readCount? (toString n).toList = some n :=
      Text.readCount?_toString (by rw [maxWord_eq]; exact hword)
    refine ⟨⟨_, hcount⟩, fun size name hsize => ?_⟩
    have hbytes : (⟨name, type, .array n hpos⟩ : Member).byteSize = type.stride * n := rfl
    rw [Uniform.readExtent_of_count hpos hsize, BlockLayout.exists_place_singleton_iff,
      BlockLayout.exists_overflow_singleton_iff, hbytes, ValueType.strideOf_name]
    by_cases hfits : type.stride * n ≤ maxWord
    · simp [hfits]
    · simp [hfits]
      omega
  · intro vertex fragment host overflow h
    exact MeshInterface.two_le_length_of_blockOverflow
      (MergedUniforms.sound_ofStages vertex fragment).read h

/-- The largest array of vectors that fits, and two arrays that fit alone but not together. -/
theorem sizeChecks_agree_widePair :
    Text.readCount? "268435455".toList = some 268435455 ∧
    Uniform.readExtent "vec3" "268435455".toList = .ok (.array 268435455 (by decide)) ∧
    Uniform.readExtent "vec3" "268435456".toList = .error (.arrayTooLarge 268435456) ∧
    (∃ layout, BlockLayout.place
      [⟨"tints", .vector .float .three, .array 268435455 (by decide)⟩] = .ok layout) ∧
    MeshInterface.ofUniforms {} (MergedUniforms.ofStages ["vec3 tints[200000000]"]
      ["mat4 bones[50000000]"]).uniforms = .error (.blockOverflow ⟨"bones"⟩) ∧
    2 ≤ ((MergedUniforms.ofStages ["vec3 tints[200000000]"]
      ["mat4 bones[50000000]"]).uniforms.filter fun u =>
        u.isSampler = false ∧ ¬ ({} : Host).HasMember u.name).length := by
  have hcount : Text.readCount? "268435455".toList = some 268435455 := by decide +kernel
  have hextent : Uniform.readExtent "vec3" "268435455".toList =
      .ok (.array 268435455 (by decide)) := by decide +kernel
  have hlarge : Uniform.readExtent "vec3" "268435456".toList =
      .error (.arrayTooLarge 268435456) := by decide +kernel
  have hoverflow : MeshInterface.ofUniforms {} (MergedUniforms.ofStages ["vec3 tints[200000000]"]
      ["mat4 bones[50000000]"]).uniforms = .error (.blockOverflow ⟨"bones"⟩) := by
    decide +kernel
  have hagree := (sizeChecks_agree.1 (.vector .float .three) 268435455 (by decide) (by decide)).2
    "268435455".toList "tints" hcount
  exact ⟨hcount, hextent, hlarge, hagree.1.1 hextent, hoverflow,
    sizeChecks_agree.2 _ _ _ _ hoverflow⟩

end GlslLayout
