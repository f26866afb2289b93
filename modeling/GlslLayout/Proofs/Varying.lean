import GlslLayout.Varying
import Mathlib.Data.List.Induction

/-!
What one more line does to the varyings of a stage.

* `VertexVaryings.add_cases`, `FragmentVaryings.add_cases`: the outcomes of a line.
* `VaryingInterface.Tabled`: the table of locations agrees with what is bound, and
  `VaryingInterface.Tabled.bindNext` keeps it so.
* `VaryingInterface.read?_of_mem_foldl`: a run binds only what its lines declare.
-/

namespace GlslLayout

set_option autoImplicit false

/-! ## One line -/

namespace VertexVaryings

theorem add_cases (v : VaryingInterface) (line : String) :
    (Declarator.read? line = none ∧
      add v line = v.report ((Problem.malformedVarying line).error (some .vertex))) ∨
    (∃ d location, Declarator.read? line = some d ∧ v.locations[d.name]? = some location ∧
      add v line = v.report ((Problem.repeatedVarying d.name location).warning (some .vertex))) ∨
    ∃ d, Declarator.read? line = some d ∧ v.locations[d.name]? = none ∧
      add v line = bindNext v d := by
  unfold add
  cases hread : Declarator.read? line with
  | none => exact Or.inl ⟨rfl, rfl⟩
  | some d =>
    right
    cases hlocation : v.locations[d.name]? with
    | some location => exact Or.inl ⟨d, location, rfl, hlocation, by simp [hlocation]⟩
    | none => exact Or.inr ⟨d, rfl, hlocation, by simp [hlocation]⟩

end VertexVaryings

namespace FragmentVaryings

theorem add_cases (v : VaryingInterface) (line : String) :
    (Declarator.read? line = none ∧
      add v line = v.report ((Problem.malformedVarying line).error (some .fragment))) ∨
    (∃ d, Declarator.read? line = some d ∧ v.locations[d.name]? = none ∧
      add v line = v.report ((Problem.missingVarying d.name).error (some .fragment))) ∨
    ∃ d location, Declarator.read? line = some d ∧ v.locations[d.name]? = some location ∧
      add v line = v.bind ⟨d.name, d.type, location⟩ := by
  unfold add
  cases hread : Declarator.read? line with
  | none => exact Or.inl ⟨rfl, rfl⟩
  | some d =>
    right
    cases hlocation : v.locations[d.name]? with
    | none => exact Or.inl ⟨d, rfl, hlocation, by simp [hlocation]⟩
    | some location => exact Or.inr ⟨d, location, rfl, hlocation, by simp [hlocation]⟩

theorem locations_add (v : VaryingInterface) (line : String) :
    (add v line).locations = v.locations := by
  rcases add_cases v line with ⟨-, hline⟩ | ⟨_, -, -, hline⟩ | ⟨_, _, -, -, hline⟩
  · rw [hline]
    rfl
  · rw [hline]
    rfl
  · rw [hline]
    rfl

end FragmentVaryings

/-! ## Whole runs -/

theorem VertexVaryings.ofLines_concat (lines : List String) (line : String) :
    ofLines (lines ++ [line]) = add (ofLines lines) line := by
  rw [ofLines, List.foldl_append]
  rfl

theorem FragmentVaryings.ofLines_concat (locations : LocationMap) (lines : List String)
    (line : String) :
    ofLines locations (lines ++ [line]) = add (ofLines locations lines) line := by
  rw [ofLines, List.foldl_append]
  rfl

/-- The fragment stage leaves the table as the vertex stage has filled it. -/
theorem FragmentVaryings.locations_ofLines (locations : LocationMap) (lines : List String) :
    (ofLines locations lines).locations = locations := by
  induction lines using List.reverseRecOn with
  | nil => rfl
  | append_singleton lines line ih => rw [ofLines_concat, locations_add, ih]

namespace VaryingInterface

/-- The table holds the bound varyings and has as many entries as there are. -/
structure Tabled (v : VaryingInterface) : Prop where
  size : v.locations.size = v.placed.length
  holds : ∀ (name : String) (location : Nat), v.locations[name]? = some location ↔
    ∃ b ∈ v.placed, b.name = name ∧ b.location = location

namespace Tabled

variable {v : VaryingInterface}

theorem empty : Tabled (.empty ∅) where
  size := rfl
  holds := by simp [VaryingInterface.empty]

theorem mem_names_iff (h : v.Tabled) (name : String) :
    name ∈ v.placed.map PlacedVarying.name ↔ (v.locations[name]?).isSome = true := by
  rw [Option.isSome_iff_exists, List.mem_map]
  simp only [h.holds]
  constructor
  · rintro ⟨b, hb, hname⟩
    exact ⟨b.location, b, hb, hname, rfl⟩
  · rintro ⟨-, b, hb, hname, -⟩
    exact ⟨b, hb, hname⟩

/-- A name that the table does not hold makes it one larger. -/
theorem bindNext (h : v.Tabled) {d : Declarator} (hnew : v.locations[d.name]? = none) :
    (VertexVaryings.bindNext v d).Tabled where
  size := by
    have hmem : d.name ∉ v.locations := by
      rw [Std.TreeMap.mem_iff_isSome_getElem?, hnew]
      exact Bool.false_ne_true
    simp [VertexVaryings.bindNext, bind, Std.TreeMap.size_insert, hmem, h.size]
  holds := by
    intro name location
    have hinsert : (VertexVaryings.bindNext v d).locations[name]? =
        if d.name = name then some v.locations.size else v.locations[name]? := by
      rw [VertexVaryings.bindNext, Std.TreeMap.getElem?_insert]
      simp only [Std.LawfulEqCmp.compare_eq_iff_eq]
    have hplaced : (VertexVaryings.bindNext v d).placed =
        v.placed ++ [⟨d.name, d.type, v.locations.size⟩] := rfl
    rw [hinsert, hplaced]
    simp only [List.mem_append, List.mem_singleton, or_and_right, exists_or, exists_eq_left,
      ← h.holds]
    by_cases hname : d.name = name
    · subst hname
      simp [hnew]
    · simp [hname]

end Tabled

end VaryingInterface

/-! ## What is bound -/

/-- A line binds nothing, or the varying that it declares. -/
theorem VertexVaryings.placed_add (v : VaryingInterface) (line : String) :
    (add v line).placed = v.placed ∨ ∃ d location, Declarator.read? line = some d ∧
      (add v line).placed = v.placed ++ [⟨d.name, d.type, location⟩] := by
  rcases add_cases v line with ⟨-, hline⟩ | ⟨_, _, -, -, hline⟩ | ⟨d, hread, -, hline⟩
  · exact Or.inl (by rw [hline]; rfl)
  · exact Or.inl (by rw [hline]; rfl)
  · exact Or.inr ⟨d, v.locations.size, hread, by rw [hline]; rfl⟩

theorem FragmentVaryings.placed_add (v : VaryingInterface) (line : String) :
    (add v line).placed = v.placed ∨ ∃ d location, Declarator.read? line = some d ∧
      (add v line).placed = v.placed ++ [⟨d.name, d.type, location⟩] := by
  rcases add_cases v line with ⟨-, hline⟩ | ⟨_, -, -, hline⟩ | ⟨d, location, hread, -, hline⟩
  · exact Or.inl (by rw [hline]; rfl)
  · exact Or.inl (by rw [hline]; rfl)
  · exact Or.inr ⟨d, location, hread, by rw [hline]; rfl⟩

theorem VaryingInterface.read?_of_mem_foldl {add : VaryingInterface → String → VaryingInterface}
    (hadd : ∀ v line, (add v line).placed = v.placed ∨ ∃ d location,
      Declarator.read? line = some d ∧
        (add v line).placed = v.placed ++ [⟨d.name, d.type, location⟩])
    (locations : LocationMap) (lines : List String) :
    ∀ b ∈ (lines.foldl add (.empty locations)).placed,
      ∃ line ∈ lines, Declarator.read? line = some ⟨b.type, b.name⟩ := by
  induction lines using List.reverseRecOn with
  | nil => exact fun b hb => nomatch hb
  | append_singleton lines line ih =>
    have hfront : ∀ b ∈ (lines.foldl add (.empty locations)).placed,
        ∃ l ∈ lines ++ [line], Declarator.read? l = some ⟨b.type, b.name⟩ := by
      intro b hb
      obtain ⟨l, hl, hread⟩ := ih b hb
      exact ⟨l, List.mem_append_left [line] hl, hread⟩
    intro b hb
    rw [List.foldl_append, List.foldl_cons, List.foldl_nil] at hb
    rcases hadd (lines.foldl add (.empty locations)) line with hsame | ⟨d, location, hread, hnew⟩
    · rw [hsame] at hb
      exact hfront b hb
    · rw [hnew] at hb
      rcases List.mem_append.1 hb with hb | hb
      · exact hfront b hb
      · obtain rfl := List.mem_singleton.1 hb
        exact ⟨line, by simp, hread⟩

theorem VertexVaryings.read?_of_mem_placed {lines : List String} {b : PlacedVarying}
    (h : b ∈ (ofLines lines).placed) :
    ∃ line ∈ lines, Declarator.read? line = some ⟨b.type, b.name⟩ :=
  VaryingInterface.read?_of_mem_foldl placed_add ∅ lines b h

theorem FragmentVaryings.read?_of_mem_placed {locations : LocationMap} {lines : List String}
    {b : PlacedVarying} (h : b ∈ (ofLines locations lines).placed) :
    ∃ line ∈ lines, Declarator.read? line = some ⟨b.type, b.name⟩ :=
  VaryingInterface.read?_of_mem_foldl placed_add locations lines b h

end GlslLayout
