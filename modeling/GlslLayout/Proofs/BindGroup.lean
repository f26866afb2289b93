import GlslLayout.BindGroup
import GlslLayout.Proofs.Statement
import Mathlib.Data.List.Nodup

/-!
How the textures of a bind group are numbered, looked up and declared.

* `TextureSlot.spelled_statements`: declaring a texture adds only word characters to its name.
* `TextureSlot.resources`: the two statements of a texture that have an address.
* `BindGroup.filter_textureStatements`: only these bind something in the set of the group.
* `BindGroup.addresses_resources`: their bindings follow those of the buffers without a gap.
* `BindGroup.textureBinding?_of_first`: the lookup finds the view of the first texture of a name.
-/

namespace GlslLayout

set_option autoImplicit false

namespace TextureSlot

/-- The name under which the view of a texture is declared. -/
def viewName (t : TextureSlot) : String :=
  match t.dimension with
  | .d2Array => Statement.textureName t.name
  | _ => t.name

/-- The view of a texture at an address, and its sampler at the next. -/
def resources (t : TextureSlot) (address : Address) : List Statement :=
  [.resource address t.textureType t.viewName,
    .resource ⟨address.set, address.binding + 1⟩ t.samplerType (Statement.samplerName t.name)]

/-- The combined name of an array texture. -/
def combinations (t : TextureSlot) : List Statement :=
  match t.dimension with
  | .d2Array => [.combination t.name t.arraySamplerType]
  | _ => []

theorem statements_eq (t : TextureSlot) (address : Address) :
    t.statements address = t.resources address ++ t.combinations := by
  unfold statements resources combinations viewName
  cases t.dimension <;> rfl

theorem filter_statements (t : TextureSlot) (address : Address) (set : Nat) :
    (t.statements address).filter (Statement.bindsIn set) =
      if address.set = set then t.resources address else [] := by
  by_cases h : address.set = set
  · cases hd : t.dimension <;>
      simp [statements, resources, viewName, hd, Statement.bindsIn, Statement.address?, h]
  · cases hd : t.dimension <;>
      simp [statements, hd, Statement.bindsIn, Statement.address?, h]

section Spelling

variable {p : Char → Prop} (hp : ∀ c, Source.isWordChar c = true → p c)
include hp

theorem over_textureType (t : TextureSlot) : Over p t.textureType := by
  have hletter : t.sampleType.letter.toList.all Source.isWordChar = true := by
    cases t.sampleType <;> decide
  have hdimension : t.dimension.textureType.toList.all Source.isWordChar = true := by
    cases t.dimension <;> decide
  exact over_append_iff.2 ⟨over_of_wordChars hp hletter, over_of_wordChars hp hdimension⟩

theorem over_samplerType (t : TextureSlot) : Over p t.samplerType := by
  unfold samplerType
  cases t.sampleType <;> exact over_of_wordChars hp (by decide)

theorem over_arraySamplerType (t : TextureSlot) : Over p t.arraySamplerType := by
  unfold arraySamplerType
  cases t.sampleType <;> exact over_of_wordChars hp (by decide)

theorem spelled_statements {t : TextureSlot} (h : Over p t.name) (address : Address) :
    ∀ s ∈ t.statements address, s.Spelled p := by
  have hview : Over p (Statement.textureName t.name) :=
    over_append_iff.2 ⟨h, over_of_wordChars hp (by decide)⟩
  have hsampler : Over p (Statement.samplerName t.name) :=
    over_append_iff.2 ⟨h, over_of_wordChars hp (by decide)⟩
  have htype := over_textureType hp t
  have hsamplerType := over_samplerType hp t
  have hcombined := over_arraySamplerType hp t
  cases hd : t.dimension <;> simp_all [statements, Statement.Spelled]

end Spelling

end TextureSlot

namespace BindGroup

variable {g : BindGroup}

theorem spelled_textureStatements {p : Char → Prop} (hp : ∀ c, Source.isWordChar c = true → p c)
    (h : ∀ t ∈ g.textures, Over p t.name) (set : Nat) :
    ∀ s ∈ g.textureStatements set, s.Spelled p := by
  intro s hs
  obtain ⟨entry, hentry, hs⟩ := List.mem_flatMap.1 hs
  have ht : entry.1 ∈ g.textures := List.fst_mem_of_mem_zipIdx hentry
  exact TextureSlot.spelled_statements hp (h _ ht) _ s hs

/-- The statements of the textures of a group that have an address. -/
def resources (g : BindGroup) (set : Nat) : List Statement :=
  g.textures.zipIdx.flatMap fun entry => entry.1.resources ⟨set, g.textureBinding entry.2⟩

theorem filter_textureStatements (g : BindGroup) (own set : Nat) :
    (g.textureStatements own).filter (Statement.bindsIn set) =
      if own = set then g.resources own else [] := by
  rw [textureStatements, List.filter_flatMap]
  by_cases h : own = set
  · simp only [TextureSlot.filter_statements, h, if_true]
    rfl
  · simp [TextureSlot.filter_statements, h]

/-- What combined names have nothing of is found in the other statements alone. -/
theorem filterMap_textureStatements {α : Type} (g : BindGroup) (set : Nat) {f : Statement → Option α}
    (hf : ∀ name sampler, f (.combination name sampler) = none) :
    (g.textureStatements set).filterMap f = (g.resources set).filterMap f := by
  have hnone : ∀ t : TextureSlot, t.combinations.filterMap f = [] := by
    intro t
    unfold TextureSlot.combinations
    cases t.dimension <;> simp [hf]
  rw [textureStatements, resources, List.filterMap_flatMap, List.filterMap_flatMap]
  simp only [TextureSlot.statements_eq, List.filterMap_append, hnone, List.append_nil]

/-! ## Numbering -/

/-- Two items for each entry of a list: those of entry `i` stand at `2 * i` and behind it. -/
theorem getElem?_flatMap_pair {α β : Type} (f g : α × Nat → β) (l : List α) (k i : Nat) :
    ((l.zipIdx k).flatMap fun e => [f e, g e])[2 * i]? = l[i]?.map (fun a => f (a, k + i)) ∧
    ((l.zipIdx k).flatMap fun e => [f e, g e])[2 * i + 1]? = l[i]?.map (fun a => g (a, k + i)) := by
  induction l generalizing k i with
  | nil => simp
  | cons a l ih =>
    cases i with
    | zero => simp
    | succ i =>
      have hindex : k + (i + 1) = k + 1 + i := by omega
      have hrest := ih (k + 1) i
      rw [hindex]
      simpa [List.zipIdx_cons, Nat.mul_add] using hrest

theorem flatMap_pair_eq_range' {α : Type} (l : List α) (start k : Nat) :
    ((l.zipIdx k).flatMap fun e => [start + 2 * e.2, start + 2 * e.2 + 1]) =
      List.range' (start + 2 * k) (2 * l.length) := by
  induction l generalizing k with
  | nil => simp
  | cons a l ih =>
    have hlength : 2 * (a :: l).length = 2 * l.length + 1 + 1 := by simp [Nat.mul_add]
    rw [List.zipIdx_cons, List.flatMap_cons, ih, hlength, List.range'_succ, List.range'_succ]
    rfl

theorem addresses_resources (g : BindGroup) (set : Nat) :
    (g.resources set).filterMap Statement.address? =
      (List.range' g.buffers.length (2 * g.textures.length)).map fun b => ⟨set, b⟩ := by
  have hrange := flatMap_pair_eq_range' g.textures g.buffers.length 0
  rw [Nat.mul_zero, Nat.add_zero] at hrange
  rw [← hrange, List.map_flatMap, resources, List.filterMap_flatMap]
  rfl

theorem headings_resources (g : BindGroup) (set : Nat) {i : Nat} {t : TextureSlot}
    (h : g.textures[i]? = some t) :
    ((g.resources set).filterMap Statement.heading?)[2 * i]? =
        some (heading ⟨set, g.textureBinding i⟩
          (") uniform " ++ t.textureType ++ " " ++ t.viewName ++ ";")) ∧
      ((g.resources set).filterMap Statement.heading?)[2 * i + 1]? =
        some (heading ⟨set, g.textureBinding i + 1⟩
          (") uniform " ++ t.samplerType ++ " " ++ Statement.samplerName t.name ++ ";")) := by
  rw [resources, List.filterMap_flatMap]
  have hpair := getElem?_flatMap_pair
    (fun e : TextureSlot × Nat => heading ⟨set, g.textureBinding e.2⟩
      (") uniform " ++ e.1.textureType ++ " " ++ e.1.viewName ++ ";"))
    (fun e : TextureSlot × Nat => heading ⟨set, g.textureBinding e.2 + 1⟩
      (") uniform " ++ e.1.samplerType ++ " " ++ Statement.samplerName e.1.name ++ ";"))
    g.textures 0 i
  rw [h, Option.map_some, Option.map_some, Nat.zero_add] at hpair
  exact hpair

/-! ## Lookup -/

theorem textureBinding?_of_first {i : Nat} {t : TextureSlot} (h : g.textures[i]? = some t)
    (hfirst : ∀ t' ∈ g.textures.take i, t'.name ≠ t.name) :
    g.textureBinding? t.name = some (g.textureBinding i) := by
  obtain ⟨hi, rfl⟩ := List.getElem?_eq_some_iff.1 h
  have hfind : (g.textures.findIdx? fun t => t.name == g.textures[i].name) = some i := by
    rw [List.findIdx?_eq_some_iff_getElem]
    refine ⟨hi, by simp, ?_⟩
    intro j hji
    have hne := hfirst g.textures[j] (List.mem_take_iff_getElem.2 ⟨j, by omega, rfl⟩)
    simpa using hne
  rw [textureBinding?, hfind]
  rfl

theorem textureBinding?_of_nodup (hnames : (g.textures.map TextureSlot.name).Nodup) {i : Nat}
    {t : TextureSlot} (h : g.textures[i]? = some t) :
    g.textureBinding? t.name = some (g.textureBinding i) := by
  refine textureBinding?_of_first h fun t' ht' hname => ?_
  obtain ⟨hi, rfl⟩ := List.getElem?_eq_some_iff.1 h
  obtain ⟨j, hj, rfl⟩ := List.mem_take_iff_getElem.1 ht'
  have hne := List.nodup_iff_getElem?_ne_getElem?.1 hnames j i (by omega) (by simpa using hi)
  refine hne ?_
  simpa [hi, (by omega : j < g.textures.length)] using hname

end BindGroup

end GlslLayout
