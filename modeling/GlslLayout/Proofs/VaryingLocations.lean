import GlslLayout.Proofs.Earlier
import GlslLayout.Proofs.Varying
import Mathlib.Data.List.Forall2

/-!
Where the varyings of the two stages stand, in terms of the words of the lines that declare them.

* `firstNames`: the names that lines declare, in order of first appearance.
* `VertexVaryings.Reflects`: a vertex stage that is exactly what its lines amount to; every further
  line keeps it so (`VertexVaryings.Reflects.add`).
* `FragmentVaryings.forall₂_placed`, `FragmentVaryings.reports_ofLines`: a fragment stage line by
  line.
* `varyings_located`: locations count up from zero, and both stages share them.
-/

namespace GlslLayout

set_option autoImplicit false

/-! ## What lines declare -/

/-- The types and names that lines declare. A line of fewer than two words declares nothing. -/
def declarators (lines : List String) : List Declarator :=
  lines.filterMap Declarator.read?

/-- The second words of lines, each once, in the order of their first appearance. -/
def firstNames (lines : List String) : List String :=
  (lines.filterMap secondWord?).eraseDups

theorem mem_firstNames {lines : List String} {name : String} :
    name ∈ firstNames lines ↔ ∃ line ∈ lines, secondWord? line = some name := by
  rw [firstNames, List.mem_eraseDups, List.mem_filterMap]

theorem firstNames_concat_none {lines : List String} {line : String}
    (h : secondWord? line = none) : firstNames (lines ++ [line]) = firstNames lines := by
  simp [firstNames, h]

theorem firstNames_concat_some {lines : List String} {line name : String}
    (h : secondWord? line = some name) :
    firstNames (lines ++ [line]) =
      if name ∈ firstNames lines then firstNames lines else firstNames lines ++ [name] := by
  have hnames : (lines ++ [line]).filterMap secondWord? =
      lines.filterMap secondWord? ++ [name] := by simp [h]
  rw [firstNames, hnames, eraseDups_concat]
  simp only [firstNames, List.mem_eraseDups]

/-! ## The vertex stage -/

namespace VertexVaryings

/-- What is reported about a line behind earlier ones. -/
def lineReports (earlier : List String) (line : String) : List Diagnostic :=
  match secondWord? line with
  | none =>
    [⟨.error, .malformedDeclaration, some .vertex,
      "varying declaration needs a type and a name: '" ++ line ++ "'"⟩]
  | some name =>
    if name ∈ firstNames earlier then
      [⟨.warning, .duplicateVarying, some .vertex,
        "varying '" ++ name ++ "' is declared again and keeps location " ++
          toString ((firstNames earlier).idxOf name)⟩]
    else []

/-- The vertex stage is exactly what its lines amount to. -/
structure Reflects (lines : List String) (v : VaryingInterface) : Prop where
  tabled : v.Tabled
  locations : v.placed.map PlacedVarying.location = List.range v.placed.length
  nodup : (v.placed.map PlacedVarying.name).Nodup
  names : v.placed.map PlacedVarying.name = firstNames lines
  /-- The type is that of the first line with the name. -/
  types : ∀ b ∈ v.placed, ∃ line,
    lines.find? (fun line => secondWord? line == some b.name) = some line ∧
      Declarator.Opens ⟨b.type, b.name⟩ line
  reports : v.reports = flatMapEarlier lineReports lines

namespace Reflects

variable {lines : List String} {v : VaryingInterface}

/-- A name stands among the first names at its location. -/
theorem getElem?_firstNames_iff (h : Reflects lines v) {name : String} {location : Nat} :
    (firstNames lines)[location]? = some name ↔
      ∃ b ∈ v.placed, b.name = name ∧ b.location = location := by
  have hlocation : ∀ (i : Nat) (b : PlacedVarying), v.placed[i]? = some b → b.location = i := by
    intro i b hb
    obtain ⟨hi, rfl⟩ := List.getElem?_eq_some_iff.1 hb
    have hmap := congrArg (·[i]?) h.locations
    simpa [hi] using hmap
  rw [← h.names, List.getElem?_map, Option.map_eq_some_iff]
  constructor
  · rintro ⟨b, hb, rfl⟩
    exact ⟨b, List.mem_of_getElem? hb, rfl, hlocation location b hb⟩
  · rintro ⟨b, hb, rfl, rfl⟩
    obtain ⟨i, hi⟩ := List.mem_iff_getElem?.1 hb
    rw [hlocation i b hi]
    exact ⟨b, hi, rfl⟩

theorem getElem?_locations (h : Reflects lines v) {name : String} {location : Nat} :
    v.locations[name]? = some location ↔ (firstNames lines)[location]? = some name := by
  rw [h.tabled.holds, h.getElem?_firstNames_iff]

theorem idxOf_firstNames (h : Reflects lines v) {name : String} {location : Nat}
    (hlocation : v.locations[name]? = some location) :
    (firstNames lines).idxOf name = location := by
  obtain ⟨hlt, hname⟩ := List.getElem?_eq_some_iff.1 (h.getElem?_locations.1 hlocation)
  have hnodup : (firstNames lines).Nodup := h.names ▸ h.nodup
  rw [← hname, hnodup.idxOf_getElem]

theorem mem_firstNames_iff (h : Reflects lines v) (name : String) :
    name ∈ firstNames lines ↔ (v.locations[name]?).isSome = true := by
  rw [← h.names, h.tabled.mem_names_iff]

/-- One location holds one name, and one name has one location. -/
theorem location_eq_iff (h : Reflects lines v) {name other : String} {i j : Nat}
    (hi : v.locations[name]? = some i) (hj : v.locations[other]? = some j) :
    i = j ↔ name = other := by
  constructor
  · rintro rfl
    rw [h.getElem?_locations] at hi hj
    exact Option.some.inj (hi.symm.trans hj)
  · rintro rfl
    exact Option.some.inj (hi.symm.trans hj)

theorem empty : Reflects [] (.empty ∅) where
  tabled := VaryingInterface.Tabled.empty
  locations := rfl
  nodup := List.nodup_nil
  names := rfl
  types := by simp [VaryingInterface.empty]
  reports := rfl

/-- A line that only is reported leaves the names as they are. -/
theorem report (h : Reflects lines v) {line : String} {r : Diagnostic}
    (hnames : firstNames (lines ++ [line]) = firstNames lines)
    (hreport : lineReports lines line = [r]) : Reflects (lines ++ [line]) (v.report r) where
  tabled := ⟨h.tabled.size, h.tabled.holds⟩
  locations := h.locations
  nodup := h.nodup
  names := by rw [hnames, ← h.names]; rfl
  types := by
    intro b hb
    obtain ⟨first, hfirst, hopens⟩ := h.types b hb
    exact ⟨first, by rw [List.find?_append, hfirst, Option.some_or], hopens⟩
  reports := by
    rw [flatMapEarlier_concat, hreport, ← h.reports]
    rfl

/-- A new name takes the next location. -/
theorem bindNext (h : Reflects lines v) {line : String} {d : Declarator}
    (hread : Declarator.read? line = some d) (hnew : v.locations[d.name]? = none) :
    Reflects (lines ++ [line]) (VertexVaryings.bindNext v d) := by
  have hword := Declarator.secondWord?_of_read? hread
  have hfresh : d.name ∉ firstNames lines := by simp [h.mem_firstNames_iff, hnew]
  have hplaced : (VertexVaryings.bindNext v d).placed =
      v.placed ++ [⟨d.name, d.type, v.locations.size⟩] := rfl
  constructor
  case tabled => exact h.tabled.bindNext hnew
  case locations =>
    -- the table has as many entries as there are varyings in front
    simp [hplaced, h.locations, h.tabled.size, List.range_succ]
  case nodup =>
    rw [hplaced, List.map_append, List.map_singleton, ← List.concat_eq_append]
    exact h.nodup.concat (h.names ▸ hfresh)
  case names =>
    rw [firstNames_concat_some hword, if_neg hfresh, ← h.names, hplaced, List.map_append,
      List.map_singleton]
  case types =>
    intro b hb
    rw [List.find?_append]
    rw [hplaced, List.mem_append, List.mem_singleton] at hb
    rcases hb with hb | rfl
    · obtain ⟨first, hfirst, hopens⟩ := h.types b hb
      exact ⟨first, by rw [hfirst, Option.some_or], hopens⟩
    · -- no earlier line has the name, so the new line is the first
      have hnone : lines.find? (fun l => secondWord? l == some d.name) = none := by
        rw [List.find?_eq_none]
        intro l hl hname
        exact hfresh (mem_firstNames.2 ⟨l, hl, beq_iff_eq.1 hname⟩)
      exact ⟨line, by simp [hnone, hword], Declarator.read?_eq_some_iff.1 hread⟩
  case reports =>
    have hquiet : lineReports lines line = [] := by simp [lineReports, hword, hfresh]
    rw [flatMapEarlier_concat, hquiet, List.append_nil, ← h.reports]
    rfl

theorem add (h : Reflects lines v) (line : String) :
    Reflects (lines ++ [line]) (VertexVaryings.add v line) := by
  rcases add_cases v line with
    ⟨hread, hline⟩ | ⟨d, location, hread, hlocation, hline⟩ | ⟨d, hread, hnew, hline⟩
  · have hword := Declarator.secondWord?_of_none hread
    rw [hline]
    exact h.report (firstNames_concat_none hword) (by rw [lineReports, hword]; rfl)
  · have hword := Declarator.secondWord?_of_read? hread
    have hmem : d.name ∈ firstNames lines := by simp [h.mem_firstNames_iff, hlocation]
    rw [hline]
    refine h.report (by rw [firstNames_concat_some hword, if_pos hmem]) ?_
    simp only [lineReports, hword, if_pos hmem, h.idxOf_firstNames hlocation]
    rfl
  · rw [hline]
    exact h.bindNext hread hnew

end Reflects

theorem reflects_ofLines (lines : List String) : Reflects lines (ofLines lines) := by
  induction lines using List.reverseRecOn with
  | nil => exact Reflects.empty
  | append_singleton lines line ih =>
    rw [ofLines_concat]
    exact ih.add line

theorem placed_prefix_ofLines_append (lines more : List String) :
    (ofLines lines).placed <+: (ofLines (lines ++ more)).placed := by
  induction more using List.reverseRecOn with
  | nil => simp
  | append_singleton more line ih =>
    refine ih.trans ?_
    rw [← List.append_assoc, ofLines_concat]
    rcases placed_add (ofLines (lines ++ more)) line with hsame | ⟨_, _, -, hnew⟩
    · simp [hsame]
    · rw [hnew]
      exact List.prefix_append _ _

end VertexVaryings

/-! ## The fragment stage -/

namespace FragmentVaryings

/-- What is reported about a line, given the names that the vertex stage produces. -/
def lineReports (produced : List String) (line : String) : List Diagnostic :=
  match secondWord? line with
  | none =>
    [⟨.error, .malformedDeclaration, some .fragment,
      "varying declaration needs a type and a name: '" ++ line ++ "'"⟩]
  | some name =>
    if name ∈ produced then []
    else
      [⟨.error, .missingVarying, some .fragment,
        "fragment shader requires varying '" ++ name ++
          "' but vertex shader does not generate it"⟩]

/-- What a line adds to the varyings and to the reports, given the table of locations. -/
theorem ofLines_concat_cases (locations : LocationMap) (lines : List String) (line : String) :
    (Declarator.read? line = none ∧ ofLines locations (lines ++ [line]) =
      (ofLines locations lines).report ((Problem.malformedVarying line).error (some .fragment))) ∨
    (∃ d, Declarator.read? line = some d ∧ locations[d.name]? = none ∧
      ofLines locations (lines ++ [line]) =
        (ofLines locations lines).report ((Problem.missingVarying d.name).error (some .fragment))) ∨
    ∃ d location, Declarator.read? line = some d ∧ locations[d.name]? = some location ∧
      ofLines locations (lines ++ [line]) =
        (ofLines locations lines).bind ⟨d.name, d.type, location⟩ := by
  have hcases := add_cases (ofLines locations lines) line
  rwa [locations_ofLines, ← ofLines_concat] at hcases

/-- The lines whose name is in the table are bound, in order and where the table has it. -/
theorem forall₂_placed (locations : LocationMap) (lines : List String) :
    List.Forall₂
      (fun line b => Declarator.Opens ⟨b.type, b.name⟩ line ∧ locations[b.name]? = some b.location)
      (lines.filter fun line => (secondWord? line).any locations.contains)
      (ofLines locations lines).placed := by
  induction lines using List.reverseRecOn with
  | nil => exact .nil
  | append_singleton lines line ih =>
    rw [List.filter_append]
    rcases ofLines_concat_cases locations lines line with
      ⟨hread, hline⟩ | ⟨d, hread, hlocation, hline⟩ | ⟨d, location, hread, hlocation, hline⟩
    · have hskip : [line].filter (fun line => (secondWord? line).any locations.contains) = [] := by
        simp [Declarator.secondWord?_of_none hread]
      rw [hskip, List.append_nil, hline]
      exact ih
    · have hskip : [line].filter (fun line => (secondWord? line).any locations.contains) = [] := by
        simp [Declarator.secondWord?_of_read? hread, Std.TreeMap.contains_eq_isSome_getElem?,
          hlocation]
      rw [hskip, List.append_nil, hline]
      exact ih
    · have hkeep : [line].filter (fun line => (secondWord? line).any locations.contains) =
          [line] := by
        simp [Declarator.secondWord?_of_read? hread, Std.TreeMap.contains_eq_isSome_getElem?,
          hlocation]
      rw [hkeep, hline]
      exact List.rel_append ih (.cons ⟨Declarator.read?_eq_some_iff.1 hread, hlocation⟩ .nil)

theorem getElem?_of_mem_placed {locations : LocationMap} {lines : List String} {b : PlacedVarying}
    (h : b ∈ (ofLines locations lines).placed) : locations[b.name]? = some b.location := by
  have hplaced := (forall₂_placed locations lines).flip.imp fun _ _ hline => hline.symm
  exact ((List.forall₂_and_left _ _).1 hplaced).1 b h

theorem reports_ofLines {locations : LocationMap} {produced : List String}
    (h : ∀ name, name ∈ produced ↔ (locations[name]?).isSome = true) (lines : List String) :
    (ofLines locations lines).reports = lines.flatMap (lineReports produced) := by
  induction lines using List.reverseRecOn with
  | nil => rfl
  | append_singleton lines line ih =>
    rw [List.flatMap_append, ← ih, List.flatMap_singleton]
    rcases ofLines_concat_cases locations lines line with
      ⟨hread, hline⟩ | ⟨d, hread, hlocation, hline⟩ | ⟨d, location, hread, hlocation, hline⟩
    · rw [hline, lineReports, Declarator.secondWord?_of_none hread]
      rfl
    · have hmissing : d.name ∉ produced := by simp [h, hlocation]
      simp only [hline, lineReports, Declarator.secondWord?_of_read? hread, if_neg hmissing]
      rfl
    · have hfound : d.name ∈ produced := by simp [h, hlocation]
      simp [hline, lineReports, Declarator.secondWord?_of_read? hread, if_pos hfound,
        VaryingInterface.bind]

end FragmentVaryings

/-! ## Both stages -/

/-- The varyings of both stages in terms of the words of their lines. -/
structure VaryingsLocated (vertex fragment : List String) (outgoing incoming : VaryingInterface) :
    Prop where
  /-- The vertex stage counts its locations up from zero. -/
  dense : outgoing.placed.map PlacedVarying.location = List.range outgoing.placed.length
  /-- The table has as many names as there are varyings, so its size is the next location. -/
  counted : outgoing.locations.size = outgoing.placed.length
  names : outgoing.placed.map PlacedVarying.name = (vertex.filterMap secondWord?).eraseDups
  /-- A varying has the type of the first line with its name. -/
  types : ∀ b ∈ outgoing.placed, ∃ line,
    vertex.find? (fun line => secondWord? line == some b.name) = some line ∧
      Declarator.Opens ⟨b.type, b.name⟩ line
  map : ∀ (name : String) (location : Nat), outgoing.locations[name]? = some location ↔
    ∃ b ∈ outgoing.placed, b.name = name ∧ b.location = location
  /-- Further lines leave the varyings in front of them where they are. -/
  stable : ∀ more, outgoing.placed <+: (VertexVaryings.ofLines (vertex ++ more)).placed
  /-- The fragment stage binds the lines whose second word is in the table, in order and where the
  vertex stage has it. -/
  shared : List.Forall₂
    (fun line b => Declarator.Opens ⟨b.type, b.name⟩ line ∧
      ∃ source ∈ outgoing.placed, source.name = b.name ∧ source.location = b.location)
    (fragment.filter fun line => (secondWord? line).any outgoing.locations.contains) incoming.placed
  injective : ∀ b ∈ incoming.placed, ∀ c ∈ incoming.placed,
    b.location = c.location ↔ b.name = c.name
  outgoingReports : outgoing.reports = flatMapEarlier VertexVaryings.lineReports vertex
  incomingReports : incoming.reports =
    fragment.flatMap (FragmentVaryings.lineReports (firstNames vertex))

theorem varyings_located (vertex fragment : List String) :
    VaryingsLocated vertex fragment (VertexVaryings.ofLines vertex)
      (FragmentVaryings.ofLines (VertexVaryings.ofLines vertex).locations fragment) := by
  have hvertex := VertexVaryings.reflects_ofLines vertex
  constructor
  case dense => exact hvertex.locations
  case counted => exact hvertex.tabled.size
  case names => exact hvertex.names
  case types => exact hvertex.types
  case map => exact hvertex.tabled.holds
  case stable => exact VertexVaryings.placed_prefix_ofLines_append vertex
  case shared =>
    refine (FragmentVaryings.forall₂_placed _ fragment).imp fun line b hb => ?_
    exact ⟨hb.1, (hvertex.tabled.holds b.name b.location).1 hb.2⟩
  case injective =>
    intro b hb c hc
    exact hvertex.location_eq_iff (FragmentVaryings.getElem?_of_mem_placed hb)
      (FragmentVaryings.getElem?_of_mem_placed hc)
  case outgoingReports => exact hvertex.reports
  case incomingReports =>
    exact FragmentVaryings.reports_ofLines hvertex.mem_firstNames_iff fragment

/-- Lines of the vertex stage: two new names, a type alone, a name again and one more new name. -/
def glowingOutputs : List String :=
  ["vec2 uv", "vec3\tn", "float", "vec4 uv", "float glow flat"]

/-- Lines of the fragment stage: two shared names, one of them twice, a blank line and a name that
no vertex line declares. -/
def glowingInputs : List String :=
  ["float glow", " ", "vec3 n", "vec2 fog", "vec4 n"]

theorem varyings_located_glowing :
    VaryingsLocated glowingOutputs glowingInputs (VertexVaryings.ofLines glowingOutputs)
      (FragmentVaryings.ofLines (VertexVaryings.ofLines glowingOutputs).locations glowingInputs) ∧
    (VertexVaryings.ofLines glowingOutputs).placed =
      [⟨"uv", "vec2", 0⟩, ⟨"n", "vec3", 1⟩, ⟨"glow", "float", 2⟩] ∧
    (VertexVaryings.ofLines glowingOutputs).locations.size = 3 ∧
    (VertexVaryings.ofLines glowingOutputs).reports.map Diagnostic.kind =
      [.malformedDeclaration, .duplicateVarying] ∧
    (FragmentVaryings.ofLines (VertexVaryings.ofLines glowingOutputs).locations
        glowingInputs).placed =
      [⟨"glow", "float", 2⟩, ⟨"n", "vec3", 1⟩, ⟨"n", "vec4", 1⟩] ∧
    (FragmentVaryings.ofLines (VertexVaryings.ofLines glowingOutputs).locations
        glowingInputs).reports.map Diagnostic.kind =
      [.malformedDeclaration, .missingVarying] := by
  refine ⟨varyings_located glowingOutputs glowingInputs, ?_, ?_, ?_, ?_, ?_⟩
  all_goals decide +kernel

end GlslLayout
