import GlslLayout.Proofs.AttributeView
import GlslLayout.Proofs.Collisions
import GlslLayout.Proofs.Shader
import GlslLayout.Proofs.VaryingLocations

/-!
Which attributes and varyings of a shader share a location or a name when nothing is reported.

* `MappedAttribute.HidesBehind`, `MappedAttribute.name_placed_eq_iff`: when two attributes end up
  with one name.
* `Statement.slot?`: the location and the name that generated text declares for an input or output.
* `Shader.SlotsApart`: what may share a location or a name; `Shader.SlotsApart.slotsDistinct` says
  when nothing does.
* `Shader.slotsApart_of_quiet`: a run without reports leaves a shader so.
* `Shader.bind_sharedSlots`: a run without reports in which slots are shared.
-/

namespace GlslLayout

set_option autoImplicit false

/-! ## Names of attributes -/

namespace MappedAttribute

variable {policy : Policy} {host : Host} {semantics : SemanticMap} {lines : List String}

/-- Attribute `a` is converted, and `c` is declared under the name that `a` is hidden behind. -/
def HidesBehind (policy : Policy) (host : Host) (a c : MappedAttribute) : Prop :=
  (a.converted? host).isSome = true ∧ (c.converted? host).isSome = false ∧
    c.declared.name = policy.hiddenStart ++ a.declared.name

theorem name_placed (policy : Policy) (host : Host) (a : MappedAttribute) :
    (a.placed policy host).name =
      if (a.converted? host).isSome then policy.hiddenStart ++ a.declared.name
      else a.declared.name := by
  unfold placed
  cases a.converted? host <;> rfl

theorem semantic_eq_of_name_eq {a c : MappedAttribute} (ha : a ∈ mappedAttributes semantics lines)
    (hc : c ∈ mappedAttributes semantics lines) (h : a.declared.name = c.declared.name) :
    a.semantic = c.semantic := by
  have hsemantic := (read?_of_mem_mappedAttributes ha).2
  rw [h, (read?_of_mem_mappedAttributes hc).2] at hsemantic
  exact (Option.some.inj hsemantic).symm

/-- Attributes with one name are declared with one name, unless one of them is hidden behind the
name of the other. -/
theorem name_placed_eq_iff {a c : MappedAttribute} (ha : a ∈ mappedAttributes semantics lines)
    (hc : c ∈ mappedAttributes semantics lines) :
    (a.placed policy host).name = (c.placed policy host).name ↔
      a.declared.name = c.declared.name ∨ a.HidesBehind policy host c ∨ c.HidesBehind policy host a := by
  -- one declared name has one semantic, so both or none of its attributes are converted
  have hne : (a.converted? host).isSome ≠ (c.converted? host).isSome →
      a.declared.name ≠ c.declared.name := by
    intro hconverted hname
    rw [converted?, converted?, semantic_eq_of_name_eq ha hc hname] at hconverted
    exact hconverted rfl
  rw [name_placed, name_placed, HidesBehind, HidesBehind]
  cases hconverted : (a.converted? host).isSome with
  | false =>
    cases hother : (c.converted? host).isSome with
    | false => simp
    | true => simp [hne (by simp [hconverted, hother])]
  | true =>
    cases hother : (c.converted? host).isSome with
    | false => simp [hne (by simp [hconverted, hother]), eq_comm]
    | true => simp [String.append_right_inj]

end MappedAttribute

/-! ## Slots in generated text -/

def PlacedAttribute.slot (b : PlacedAttribute) : Nat × String :=
  (b.location, b.name)

def PlacedVarying.slot (b : PlacedVarying) : Nat × String :=
  (b.location, b.name)

/-- The location and the name of the attribute or varying that a statement declares. -/
def Statement.slot? : Statement → Option (Nat × String)
  | .vertexInput location _ name => some (location, name)
  | .varying _ location _ name => some (location, name)
  | _ => none

theorem slots_attributeStatements (policy : Policy) (host : Host) (mapped : List MappedAttribute) :
    (mapped.flatMap (MappedAttribute.statements policy host)).filterMap Statement.slot? =
      (mapped.map (MappedAttribute.placed policy host)).map PlacedAttribute.slot := by
  induction mapped with
  | nil => rfl
  | cons a mapped ih =>
    have hone : (a.statements policy host).filterMap Statement.slot? =
        [(a.placed policy host).slot] := by
      unfold MappedAttribute.statements
      cases a.converted? host <;> rfl
    rw [List.flatMap_cons, List.filterMap_append, hone, ih]
    rfl

theorem slots_varyingStatements (direction : Direction) (bs : List PlacedVarying) :
    (bs.map (PlacedVarying.statement direction)).filterMap Statement.slot? =
      bs.map PlacedVarying.slot := by
  rw [List.filterMap_map]
  exact congrFun List.filterMap_eq_map bs

/-! ## Whole shaders -/

theorem FragmentVaryings.names_sublist (locations : LocationMap) (lines : List String) :
    List.Sublist ((ofLines locations lines).placed.map PlacedVarying.name)
      ((declarators lines).map Declarator.name) := by
  induction lines using List.reverseRecOn with
  | nil => exact List.Sublist.refl []
  | append_singleton lines line ih =>
    rw [declarators, List.filterMap_append, List.map_append]
    rcases ofLines_concat_cases locations lines line with
      ⟨-, hline⟩ | ⟨d, -, -, hline⟩ | ⟨d, location, hread, -, hline⟩
    · rw [hline]
      exact ih.trans (List.sublist_append_left _ _)
    · rw [hline]
      exact ih.trans (List.sublist_append_left _ _)
    · have hdeclared : [line].filterMap Declarator.read? = [d] := by simp [hread]
      rw [hline, hdeclared, VaryingInterface.bind, List.map_append]
      exact ih.append (List.Sublist.refl [d.name])

/-- If `f` tells the entries apart, and `g` does wherever `f` does, `g` tells them apart too. -/
theorem nodup_map_of_nodup_map {α β γ : Type} {f : α → β} {g : α → γ} {l : List α}
    (h : (l.map f).Nodup) (hg : ∀ a ∈ l, ∀ b ∈ l, g a = g b → f a = f b) : (l.map g).Nodup := by
  refine h.of_map f |>.map_on ?_
  intro a ha b hb hab
  exact List.inj_on_of_nodup_map h ha hb (hg a ha b hb hab)

/-- No two attributes and no two varyings of one stage share a location or a name. -/
structure BoundShader.SlotsDistinct (bound : BoundShader) : Prop where
  attributeLocations : (bound.attributes.map PlacedAttribute.location).Nodup
  attributeNames : (bound.attributes.map PlacedAttribute.name).Nodup
  outgoingLocations : (bound.vertexVaryings.map PlacedVarying.location).Nodup
  outgoingNames : (bound.vertexVaryings.map PlacedVarying.name).Nodup
  incomingLocations : (bound.fragmentVaryings.map PlacedVarying.location).Nodup
  incomingNames : (bound.fragmentVaryings.map PlacedVarying.name).Nodup

namespace Shader

open Source (strip)

/-- The attributes of a shader that have a semantic. -/
def mapped (shader : Shader) : List MappedAttribute :=
  mappedAttributes shader.semantics (strip shader.vertex).attributes

/-- What shares a location or a name in a bound shader. -/
structure SlotsApart (policy : Policy) (host : Host) (shader : Shader) (bound : BoundShader) :
    Prop where
  attributes : bound.attributes = shader.mapped.map (MappedAttribute.placed policy host)
  attributeLocations : ∀ b ∈ bound.attributes, ∀ c ∈ bound.attributes,
    b.location = c.location ↔ b.semantic = c.semantic
  attributeNames : ∀ a ∈ shader.mapped, ∀ c ∈ shader.mapped,
    (a.placed policy host).name = (c.placed policy host).name ↔
      a.declared.name = c.declared.name ∨ a.HidesBehind policy host c ∨ c.HidesBehind policy host a
  outgoingLocations : (bound.vertexVaryings.map PlacedVarying.location).Nodup
  outgoingNames : (bound.vertexVaryings.map PlacedVarying.name).Nodup
  incomingLocations : ∀ b ∈ bound.fragmentVaryings, ∀ c ∈ bound.fragmentVaryings,
    b.location = c.location ↔ b.name = c.name
  incomingNames : List.Sublist (bound.fragmentVaryings.map PlacedVarying.name)
    ((declarators (strip shader.fragment).varyings).map Declarator.name)
  vertexSlots : ((shader.interface policy host).attributes.statements ++
      VertexVaryings.statements (shader.interface policy host).vertexVaryings).filterMap
        Statement.slot? =
    bound.attributes.map PlacedAttribute.slot ++ bound.vertexVaryings.map PlacedVarying.slot
  fragmentSlots : (FragmentVaryings.statements
      (shader.interface policy host).fragmentVaryings).filterMap Statement.slot? =
    bound.fragmentVaryings.map PlacedVarying.slot

/-- Nothing shares a slot if every attribute has a semantic of its own, none hides behind another
and the fragment stage declares no varying twice. -/
theorem SlotsApart.slotsDistinct {policy : Policy} {host : Host} {shader : Shader}
    {bound : BoundShader} (h : SlotsApart policy host shader bound)
    (hsemantics : (bound.attributes.map PlacedAttribute.semantic).Nodup)
    (hhidden : ∀ a ∈ shader.mapped, ∀ c ∈ shader.mapped, ¬ a.HidesBehind policy host c)
    (hdeclared : ((declarators (strip shader.fragment).varyings).map Declarator.name).Nodup) :
    bound.SlotsDistinct := by
  have hincoming : (bound.fragmentVaryings.map PlacedVarying.name).Nodup :=
    h.incomingNames.nodup hdeclared
  constructor
  case attributeLocations =>
    exact nodup_map_of_nodup_map hsemantics fun b hb c hc => (h.attributeLocations b hb c hc).1
  case attributeNames =>
    rw [h.attributes, List.map_map] at hsemantics ⊢
    refine nodup_map_of_nodup_map hsemantics fun a ha c hc hname => ?_
    simp only [Function.comp_apply, MappedAttribute.semantic_placed]
    rcases (h.attributeNames a ha c hc).1 hname with hname | hbehind | hbehind
    · exact MappedAttribute.semantic_eq_of_name_eq ha hc hname
    · exact absurd hbehind (hhidden a ha c hc)
    · exact absurd hbehind (hhidden c hc a ha)
  case outgoingLocations => exact h.outgoingLocations
  case outgoingNames => exact h.outgoingNames
  case incomingLocations =>
    exact nodup_map_of_nodup_map hincoming fun b hb c hc => (h.incomingLocations b hb c hc).1
  case incomingNames => exact hincoming

theorem location_eq_iff_of_quiet {policy : Policy} {host : Host} {shader : Shader}
    {bound : BoundShader} (hrun : (shader.bind policy host).outcome = .ok bound)
    (hquiet : (shader.bind policy host).diagnostics.entries = []) :
    ∀ b ∈ bound.attributes, ∀ c ∈ bound.attributes,
      b.location = c.location ↔ b.semantic = c.semantic := by
  obtain ⟨-, -, -, hattributes, -⟩ := outcome_eq_ok_iff.1 hrun
  have hreports : (shader.interface policy host).attributes.reports = [] := by
    have hinterface : (shader.interface policy host).reports = [] :=
      (List.append_eq_nil_iff.1 hquiet).2
    simp only [Interface.reports, List.append_eq_nil_iff] at hinterface
    exact hinterface.1.1.1
  intro b hb c hc
  rw [hattributes] at hb hc
  constructor
  · intro hlocation
    by_contra hne
    obtain ⟨r, hr, -⟩ := (AttributeInterface.exists_collision_iff policy host shader.semantics
      (strip shader.vertex).attributes).2 ⟨b, hb, c, hc, hlocation, hne⟩
    exact List.not_mem_nil (hreports ▸ hr)
  · intro hsemantic
    rw [PlacedAttribute.location, PlacedAttribute.location, hsemantic]

theorem slotsApart_of_locations {policy : Policy} {host : Host} {shader : Shader}
    {bound : BoundShader} (hrun : (shader.bind policy host).outcome = .ok bound)
    (hlocations : ∀ b ∈ bound.attributes, ∀ c ∈ bound.attributes,
      b.location = c.location ↔ b.semantic = c.semantic) :
    SlotsApart policy host shader bound := by
  obtain ⟨-, -, -, hattributes, houtgoing, hincoming⟩ := outcome_eq_ok_iff.1 hrun
  have hvertex : VertexVaryings.Reflects (strip shader.vertex).varyings
      (shader.interface policy host).vertexVaryings := VertexVaryings.reflects_ofLines _
  constructor
  case attributes =>
    rw [hattributes]
    exact AttributeInterface.placed_ofLines policy host _ _
  case attributeLocations => exact hlocations
  case attributeNames => exact fun a ha c hc => MappedAttribute.name_placed_eq_iff ha hc
  case outgoingLocations =>
    rw [houtgoing, hvertex.locations]
    exact List.nodup_range
  case outgoingNames =>
    rw [houtgoing]
    exact hvertex.nodup
  case incomingLocations =>
    rw [hincoming]
    intro b hb c hc
    exact hvertex.location_eq_iff (FragmentVaryings.getElem?_of_mem_placed hb)
      (FragmentVaryings.getElem?_of_mem_placed hc)
  case incomingNames =>
    rw [hincoming]
    exact FragmentVaryings.names_sublist _ _
  case vertexSlots =>
    have hstatements : (shader.interface policy host).attributes.statements =
        shader.mapped.flatMap (MappedAttribute.statements policy host) :=
      AttributeInterface.statements_ofLines policy host _ _
    have hplaced : (shader.interface policy host).attributes.placed =
        shader.mapped.map (MappedAttribute.placed policy host) :=
      AttributeInterface.placed_ofLines policy host _ _
    rw [List.filterMap_append, hattributes, houtgoing, hstatements, hplaced]
    exact congrArg₂ (· ++ ·) (slots_attributeStatements policy host shader.mapped)
      (slots_varyingStatements .outgoing _)
  case fragmentSlots =>
    rw [hincoming]
    exact slots_varyingStatements .incoming _

theorem slotsApart_of_quiet {policy : Policy} {host : Host} {shader : Shader} {bound : BoundShader}
    (hrun : (shader.bind policy host).outcome = .ok bound)
    (hquiet : (shader.bind policy host).diagnostics.entries = []) :
    SlotsApart policy host shader bound ∧
      ((bound.attributes.map PlacedAttribute.semantic).Nodup →
        (∀ a ∈ shader.mapped, ∀ c ∈ shader.mapped, ¬ a.HidesBehind policy host c) →
        ((declarators (strip shader.fragment).varyings).map Declarator.name).Nodup →
        bound.SlotsDistinct) := by
  have hapart : SlotsApart policy host shader bound :=
    slotsApart_of_locations hrun (location_eq_iff_of_quiet hrun hquiet)
  exact ⟨hapart, hapart.slotsDistinct⟩

def jointShader : Shader where
  label := none
  vertex := "attribute vec3 p;attribute vec4 joints;varying vec2 uv;varying vec3 n;"
  fragment := "varying vec3 n;varying vec2 uv;"
  semantics := .ofList [("p", Semantic.position), ("joints", .blendIndices)]

theorem slotsApart_of_quiet_jointShader :
    (jointShader.bind {} byteJoints).diagnostics.entries = [] ∧
    ∃ bound, (jointShader.bind {} byteJoints).outcome = .ok bound ∧
      SlotsApart {} byteJoints jointShader bound ∧ bound.SlotsDistinct := by
  have hvertex : strip jointShader.vertex =
      ⟨"@@@\n", ["vec3 p", "vec4 joints"], ["vec2 uv", "vec3 n"], [], []⟩ := by
    decide +kernel
  have hfragment : strip jointShader.fragment = ⟨"@@@\n", [], ["vec3 n", "vec2 uv"], [], []⟩ := by
    decide +kernel
  have hmapped : jointShader.mapped =
      [⟨⟨"vec3", "p"⟩, .position⟩, ⟨⟨"vec4", "joints"⟩, .blendIndices⟩] := by
    rw [mapped, hvertex]
    decide +kernel
  have hquiet : (jointShader.bind {} byteJoints).diagnostics.entries = [] := by
    unfold bind
    rw [hvertex, hfragment]
    decide +kernel
  have hsome : (jointShader.bind {} byteJoints).outcome.toOption.isSome = true := by
    unfold bind
    rw [hvertex, hfragment]
    decide +kernel
  cases hrun : (jointShader.bind {} byteJoints).outcome with
  | error failure =>
    rw [hrun] at hsome
    cases hsome
  | ok bound =>
    obtain ⟨hapart, hdistinct⟩ := slotsApart_of_quiet hrun hquiet
    refine ⟨hquiet, bound, rfl, hapart, hdistinct ?_ ?_ ?_⟩
    · rw [hapart.attributes, hmapped]
      decide +kernel
    · rw [hmapped]
      unfold MappedAttribute.HidesBehind
      decide +kernel
    · rw [hfragment]
      decide +kernel

/-- Two attributes of one semantic, an attribute declared twice, one declared under the hidden name
of another, and a varying that the fragment stage declares twice. -/
def sharedSlotsShader : Shader where
  label := none
  vertex := "attribute vec3 p;attribute vec3 q;attribute vec3 p;attribute vec4 w;" ++
    "attribute vec4 _private_w;varying vec2 uv;"
  fragment := "varying vec2 uv;varying vec2 uv;"
  semantics := .ofList [("p", Semantic.position), ("q", .position), ("w", .blendIndices),
    ("_private_w", .color)]

theorem bind_sharedSlots :
    ∃ bound, (sharedSlotsShader.bind {} byteJoints).outcome = .ok bound ∧
      (sharedSlotsShader.bind {} byteJoints).diagnostics.entries = [] ∧
      bound.attributes.map PlacedAttribute.slot =
        [(0, "p"), (0, "q"), (0, "p"), (3, "_private_w"), (4, "_private_w")] ∧
      bound.fragmentVaryings.map PlacedVarying.slot = [(0, "uv"), (0, "uv")] ∧
      ¬ bound.SlotsDistinct := by
  have hvertex : strip sharedSlotsShader.vertex =
      ⟨"@@@\n", ["vec3 p", "vec3 q", "vec3 p", "vec4 w", "vec4 _private_w"], ["vec2 uv"], [], []⟩ := by
    decide +kernel
  have hfragment : strip sharedSlotsShader.fragment =
      ⟨"@@@\n", [], ["vec2 uv", "vec2 uv"], [], []⟩ := by
    decide +kernel
  have hquiet : (sharedSlotsShader.bind {} byteJoints).diagnostics.entries = [] := by
    unfold bind
    rw [hvertex, hfragment]
    decide +kernel
  have hslots : ((sharedSlotsShader.bind {} byteJoints).outcome.toOption.map fun bound =>
      (bound.attributes.map PlacedAttribute.slot, bound.fragmentVaryings.map PlacedVarying.slot)) =
        some ([(0, "p"), (0, "q"), (0, "p"), (3, "_private_w"), (4, "_private_w")],
          [(0, "uv"), (0, "uv")]) := by
    unfold bind
    rw [hvertex, hfragment]
    decide +kernel
  cases hrun : (sharedSlotsShader.bind {} byteJoints).outcome with
  | error failure =>
    rw [hrun] at hslots
    cases hslots
  | ok bound =>
    rw [hrun] at hslots
    obtain ⟨hattributes, hincoming⟩ := Prod.mk.inj (Option.some.inj hslots)
    refine ⟨bound, rfl, hquiet, hattributes, hincoming, fun hdistinct => ?_⟩
    have hlocations := hdistinct.attributeLocations
    have hfirst : bound.attributes.map PlacedAttribute.location = [0, 0, 0, 3, 4] := by
      have hfst := congrArg (List.map Prod.fst) hattributes
      rw [List.map_map] at hfst
      exact hfst
    rw [hfirst] at hlocations
    revert hlocations
    decide

end Shader

end GlslLayout
