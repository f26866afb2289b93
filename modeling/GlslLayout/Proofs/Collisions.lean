import GlslLayout.Proofs.Attribute
import GlslLayout.Proofs.Earlier

/-!
Where attributes stand, and which of them are reported for standing at one location.

* `collisions`: the attributes whose nearest earlier neighbour at their location has another
  semantic.
* `collisions_eq_nil_iff`: there is none exactly if one location always means one semantic.
* `AttributeInterface.used_eq_nearestAt`: the table of locations has just these neighbours.
* `filter_isCollision_reports`: each of them is reported, in order, and nothing else is reported as
  a collision.
* `escalated`, `AttributeInterface.reports_strict`: what strict locations change about the reports.
* `AttributeInterface.ofLines_boundExactly`: all of this about the attributes of any lines.
-/

namespace GlslLayout

set_option autoImplicit false

/-! ## Attributes at one location -/

def nearestAt (earlier : List PlacedAttribute) (location : Nat) : Option PlacedAttribute :=
  earlier.reverse.find? fun b => b.location == location

/-- The nearest earlier attribute at the location of `b`, if it has another semantic. -/
def collisionAt (earlier : List PlacedAttribute) (b : PlacedAttribute) :
    List (PlacedAttribute × PlacedAttribute) :=
  match nearestAt earlier b.location with
  | none => []
  | some previous => if previous.semantic = b.semantic then [] else [(previous, b)]

/-- The attributes that collide, each behind the earlier attribute that it collides with. -/
def collisions (bs : List PlacedAttribute) : List (PlacedAttribute × PlacedAttribute) :=
  flatMapEarlier collisionAt bs

theorem collisions_concat (bs : List PlacedAttribute) (b : PlacedAttribute) :
    collisions (bs ++ [b]) = collisions bs ++ collisionAt bs b :=
  flatMapEarlier_concat collisionAt bs b

theorem nearestAt_eq_some {bs : List PlacedAttribute} {location : Nat} {b : PlacedAttribute}
    (h : nearestAt bs location = some b) : b ∈ bs ∧ b.location = location := by
  refine ⟨List.mem_reverse.1 (List.mem_of_find?_eq_some h), ?_⟩
  simpa using List.find?_some h

theorem nearestAt_eq_none_iff {bs : List PlacedAttribute} {location : Nat} :
    nearestAt bs location = none ↔ ∀ b ∈ bs, b.location ≠ location := by
  rw [nearestAt, List.find?_eq_none]
  simp

theorem collisionAt_eq_nil_iff {bs : List PlacedAttribute} {b : PlacedAttribute}
    (h : ∀ c ∈ bs, ∀ d ∈ bs, c.location = d.location → c.semantic = d.semantic) :
    collisionAt bs b = [] ↔ ∀ c ∈ bs, c.location = b.location → c.semantic = b.semantic := by
  unfold collisionAt
  cases hnearest : nearestAt bs b.location with
  | none =>
    have hnone := nearestAt_eq_none_iff.1 hnearest
    simp only [true_iff]
    exact fun c hc hlocation => absurd hlocation (hnone c hc)
  | some previous =>
    obtain ⟨hmem, hlocation⟩ := nearestAt_eq_some hnearest
    have hsame : (∀ c ∈ bs, c.location = b.location → c.semantic = b.semantic) ↔
        previous.semantic = b.semantic := by
      constructor
      · exact fun hall => hall previous hmem hlocation
      · intro hprevious c hc hc'
        rw [h c hc previous hmem (hc'.trans hlocation.symm), hprevious]
    rw [hsame]
    simp

/-- Nearest neighbours miss no collision: between two attributes of different semantics some
attribute differs from its nearest earlier neighbour. -/
theorem collisions_eq_nil_iff (bs : List PlacedAttribute) :
    collisions bs = [] ↔
      ∀ b ∈ bs, ∀ c ∈ bs, b.location = c.location → b.semantic = c.semantic := by
  induction bs using List.reverseRecOn with
  | nil => simp [collisions, flatMapEarlier]
  | append_singleton bs b ih =>
    rw [collisions_concat, List.append_eq_nil_iff, ih]
    constructor
    · rintro ⟨hall, hlast⟩ c hc d hd hlocation
      have hnew := (collisionAt_eq_nil_iff hall).1 hlast
      rcases List.mem_append.1 hc with hold | hlastc
      · rcases List.mem_append.1 hd with hd | hd
        · exact hall c hold d hd hlocation
        · obtain rfl := List.mem_singleton.1 hd
          exact hnew c hold hlocation
      · obtain rfl := List.mem_singleton.1 hlastc
        rcases List.mem_append.1 hd with hd | hd
        · exact (hnew d hd hlocation.symm).symm
        · rw [List.mem_singleton.1 hd]
    · intro hall
      have hfront : ∀ c ∈ bs, ∀ d ∈ bs, c.location = d.location → c.semantic = d.semantic :=
        fun c hc d hd => hall c (List.mem_append_left [b] hc) d (List.mem_append_left [b] hd)
      refine ⟨hfront, (collisionAt_eq_nil_iff hfront).2 fun c hc => ?_⟩
      exact hall c (List.mem_append_left [b] hc) b (by simp)

/-! ## The table of locations -/

theorem newestAt_map_semantic (bs : List PlacedAttribute) (location : Nat) :
    newestAt (bs.map PlacedAttribute.semantic) location =
      (nearestAt bs location).map PlacedAttribute.semantic := by
  rw [newestAt, ← List.map_reverse, List.find?_map]
  rfl

theorem MappedAttribute.semantic_placed (policy : Policy) (host : Host) (a : MappedAttribute) :
    (a.placed policy host).semantic = a.semantic := by
  unfold MappedAttribute.placed
  split <;> rfl

/-- However often a location is taken, the table holds the semantic of the attribute that took it
last. -/
theorem AttributeInterface.used_eq_nearestAt (policy : Policy) (host : Host)
    (semantics : SemanticMap) (lines : List String) (location : Nat) :
    (ofLines policy host semantics lines).used[location]? =
      (nearestAt (ofLines policy host semantics lines).placed location).map
        PlacedAttribute.semantic := by
  rw [used_ofLines, placed_ofLines, ← newestAt_map_semantic, List.map_map]
  congr 2
  funext a
  exact (a.semantic_placed policy host).symm

/-! ## Reports of collisions -/

def isCollision (r : Diagnostic) : Bool :=
  r.kind == .attributeLocationCollision

/-- The report about an attribute and the earlier one that it collides with. -/
def collisionDiagnostic (severity : Severity) (pair : PlacedAttribute × PlacedAttribute) :
    Diagnostic :=
  ⟨severity, .attributeLocationCollision, some .vertex,
    "two vertex attributes are mapped to the same location " ++ toString pair.2.location ++
      " in a shader: " ++ pair.1.semantic.name ++ " and " ++ pair.2.semantic.name⟩

theorem collisionReport_eq (policy : Policy) (bs : List PlacedAttribute) (b : PlacedAttribute) :
    collisionReport policy ((nearestAt bs b.location).map PlacedAttribute.semantic) b.semantic =
      (collisionAt bs b).map (collisionDiagnostic policy.collisionSeverity) := by
  unfold collisionReport collisionAt
  cases nearestAt bs b.location with
  | none => rfl
  | some previous =>
    simp only [Option.map_some]
    split <;> rfl

theorem filter_isCollision_collisionReport (policy : Policy) (previous : Option Semantic)
    (semantic : Semantic) :
    (collisionReport policy previous semantic).filter isCollision =
      collisionReport policy previous semantic := by
  rw [List.filter_eq_self]
  exact fun r hr => beq_iff_eq.2 (kind_collisionReport hr)

theorem filter_isCollision_reports (policy : Policy) (host : Host) (semantics : SemanticMap)
    (lines : List String) :
    (AttributeInterface.ofLines policy host semantics lines).reports.filter isCollision =
      (collisions (AttributeInterface.ofLines policy host semantics lines).placed).map
        (collisionDiagnostic policy.collisionSeverity) := by
  induction lines using List.reverseRecOn with
  | nil => rfl
  | append_singleton lines line ih =>
    have hused := AttributeInterface.used_eq_nearestAt policy host semantics lines
    rw [AttributeInterface.ofLines_concat, AttributeInterface.add]
    cases AttributeLine.read semantics line with
    | malformed =>
      simp only [AttributeInterface.report, List.filter_append, ih]
      exact List.append_nil _
    | unmapped name =>
      simp only [AttributeInterface.report, List.filter_append, ih]
      exact List.append_nil _
    | mapped a =>
      have hreport := collisionReport_eq policy
        (AttributeInterface.ofLines policy host semantics lines).placed (a.placed policy host)
      rw [PlacedAttribute.location, a.semantic_placed] at hreport
      simp only [AttributeInterface.bind, List.filter_append, collisions_concat, List.map_append]
      rw [filter_isCollision_collisionReport, ih, hused, hreport]

/-! ## Strict locations -/

/-- The report as strict locations make it: a collision is an error. -/
def escalated (r : Diagnostic) : Diagnostic :=
  if isCollision r then { r with severity := .error } else r

theorem collisionReport_strict (policy : Policy) (previous : Option Semantic)
    (semantic : Semantic) :
    collisionReport { policy with strictLocations := true } previous semantic =
      (collisionReport { policy with strictLocations := false } previous semantic).map
        escalated := by
  unfold collisionReport
  cases previous with
  | none => rfl
  | some previous =>
    simp only
    split <;> rfl

theorem attributeLineReports_strict (policy : Policy) (semantics : SemanticMap)
    (earlier : List String) (line : String) :
    attributeLineReports { policy with strictLocations := true } semantics earlier line =
      (attributeLineReports { policy with strictLocations := false } semantics earlier line).map
        escalated := by
  unfold attributeLineReports
  cases AttributeLine.read semantics line with
  | malformed => rfl
  | unmapped name => rfl
  | mapped a => exact collisionReport_strict policy _ a.semantic

theorem AttributeInterface.reports_strict (policy : Policy) (host : Host) (semantics : SemanticMap)
    (lines : List String) :
    (ofLines { policy with strictLocations := true } host semantics lines).reports =
      (ofLines { policy with strictLocations := false } host semantics lines).reports.map
        escalated := by
  rw [reports_ofLines, reports_ofLines, map_flatMapEarlier]
  simp only [← attributeLineReports_strict]

theorem failed_escalated_iff (label : String) (before reports after : List Diagnostic) :
    (Diagnostics.mk label (before ++ reports.map escalated ++ after)).failed = true ↔
      (Diagnostics.mk label (before ++ reports ++ after)).failed = true ∨
        ∃ r ∈ reports, r.kind = .attributeLocationCollision := by
  have hescalated : ∀ r, (escalated r).severity = .error ↔
      r.severity = .error ∨ r.kind = .attributeLocationCollision := by
    intro r
    unfold escalated isCollision
    by_cases hkind : r.kind = .attributeLocationCollision
    · simp [hkind]
    · simp [hkind]
  have hmiddle : (∃ r ∈ reports, (escalated r).severity = .error) ↔
      (∃ r ∈ reports, r.severity = .error) ∨
        ∃ r ∈ reports, r.kind = .attributeLocationCollision := by
    simp only [hescalated, and_or_left, exists_or]
  simp only [Diagnostics.failed, List.any_append, List.any_map, Bool.or_eq_true, List.any_eq_true,
    Function.comp_apply, beq_iff_eq, hmiddle]
  grind

/-! ## The attributes of a shader -/

namespace AttributeInterface

/-- The attributes of lines, and the collisions among them. -/
structure BoundExactly (policy : Policy) (semantics : SemanticMap) (lines : List String)
    (i : AttributeInterface) : Prop where
  /-- The lines of two words at least, of which the second has a semantic, are bound in order. -/
  placed : List.Forall₂
    (fun line b => ∃ d semantic, Declarator.Opens d line ∧
      semantics[d.name]? = some semantic ∧ b.semantic = semantic ∧ b.location = semantic.location)
    (lines.filter (hasSemantic semantics)) i.placed
  /-- The table has only the newest semantic at each location. -/
  used : ∀ location, i.used[location]? =
    (nearestAt i.placed location).map PlacedAttribute.semantic
  collisions : i.reports.filter isCollision =
    (collisions i.placed).map (collisionDiagnostic policy.collisionSeverity)
  collides : (∃ r ∈ i.reports, r.kind = .attributeLocationCollision) ↔
    ∃ b ∈ i.placed, ∃ c ∈ i.placed, b.location = c.location ∧ b.semantic ≠ c.semantic

/-- Strict locations change nothing but the severity of the collisions. -/
structure Escalates (lenient strict : AttributeInterface) : Prop where
  placed : strict.placed = lenient.placed
  statements : strict.statements = lenient.statements
  reports : strict.reports = lenient.reports.map escalated
  warnings : ∀ r ∈ lenient.reports, r.kind = .attributeLocationCollision → r.severity = .warning
  /-- Whatever else a run reports, it fails in addition exactly if attributes collide. -/
  failed : ∀ label before after,
    (Diagnostics.mk label (before ++ strict.reports ++ after)).failed = true ↔
      (Diagnostics.mk label (before ++ lenient.reports ++ after)).failed = true ∨
        ∃ b ∈ lenient.placed, ∃ c ∈ lenient.placed,
          b.location = c.location ∧ b.semantic ≠ c.semantic

variable (policy : Policy) (host : Host) (semantics : SemanticMap) (lines : List String)

theorem exists_collision_iff :
    (∃ r ∈ (ofLines policy host semantics lines).reports, r.kind = .attributeLocationCollision) ↔
      ∃ b ∈ (ofLines policy host semantics lines).placed,
        ∃ c ∈ (ofLines policy host semantics lines).placed,
          b.location = c.location ∧ b.semantic ≠ c.semantic := by
  have hnil : (ofLines policy host semantics lines).reports.filter isCollision = [] ↔
      GlslLayout.collisions (ofLines policy host semantics lines).placed = [] := by
    rw [filter_isCollision_reports, List.map_eq_nil_iff]
  rw [collisions_eq_nil_iff, List.filter_eq_nil_iff] at hnil
  have hnot := not_congr hnil
  simpa [isCollision] using hnot

theorem escalates_ofLines :
    Escalates (ofLines { policy with strictLocations := false } host semantics lines)
      (ofLines { policy with strictLocations := true } host semantics lines) := by
  have hreports := reports_strict policy host semantics lines
  constructor
  case placed =>
    rw [placed_ofLines, placed_ofLines]
    rfl
  case statements =>
    rw [statements_ofLines, statements_ofLines]
    rfl
  case reports => exact hreports
  case warnings =>
    intro r hr hkind
    have hcollision : isCollision r = true := beq_iff_eq.2 hkind
    have hmem := List.mem_filter.2 ⟨hr, hcollision⟩
    rw [filter_isCollision_reports] at hmem
    obtain ⟨pair, -, rfl⟩ := List.mem_map.1 hmem
    rfl
  case failed =>
    intro label before after
    rw [← exists_collision_iff, hreports]
    exact failed_escalated_iff label before _ after

theorem ofLines_boundExactly :
    BoundExactly policy semantics lines (ofLines policy host semantics lines) ∧
      Escalates (ofLines { policy with strictLocations := false } host semantics lines)
        (ofLines { policy with strictLocations := true } host semantics lines) := by
  refine ⟨⟨?_, ?_, ?_, ?_⟩, escalates_ofLines policy host semantics lines⟩
  · refine (forall₂_placed policy host lines).imp fun line b hb => ?_
    obtain ⟨d, semantic, hopens, hsemantic, rfl⟩ := hb
    refine ⟨d, semantic, hopens, hsemantic, MappedAttribute.semantic_placed policy host _, ?_⟩
    rw [PlacedAttribute.location, MappedAttribute.semantic_placed]
  · exact used_eq_nearestAt policy host semantics lines
  · exact filter_isCollision_reports policy host semantics lines
  · exact exists_collision_iff policy host semantics lines

/-- Three attributes at one location, with a type alone and a name without a semantic in between. -/
def crowdedLines : List String :=
  ["vec3 p", "vec3", "float a", "vec4 q", "vec3 p"]

def crowdedSemantics : SemanticMap :=
  .ofList [("p", Semantic.position), ("a", Semantic.generic 0)]

/-- The table forgets the first attribute, but the third collides with the second all the same. -/
theorem ofLines_boundExactly_crowded :
    BoundExactly {} crowdedSemantics crowdedLines (ofLines {} {} crowdedSemantics crowdedLines) ∧
    (ofLines {} {} crowdedSemantics crowdedLines).placed =
      [⟨"p", "vec3", .position⟩, ⟨"a", "float", .generic 0⟩, ⟨"p", "vec3", .position⟩] ∧
    (ofLines {} {} crowdedSemantics crowdedLines).used[0]? = some .position ∧
    (ofLines {} {} crowdedSemantics crowdedLines).reports.map
        (fun r => (r.severity, r.kind)) =
      [(.error, .malformedDeclaration), (.warning, .attributeLocationCollision),
        (.warning, .unmappedAttribute), (.warning, .attributeLocationCollision)] ∧
    (ofLines { strictLocations := true } {} crowdedSemantics crowdedLines).reports.map
        (fun r => (r.severity, r.kind)) =
      [(.error, .malformedDeclaration), (.error, .attributeLocationCollision),
        (.warning, .unmappedAttribute), (.error, .attributeLocationCollision)] := by
  refine ⟨(ofLines_boundExactly {} {} crowdedSemantics crowdedLines).1, ?_, ?_, ?_, ?_⟩
  all_goals decide +kernel

end AttributeInterface

end GlslLayout
