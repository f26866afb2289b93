import GlslLayout.Attribute
import GlslLayout.Proofs.Earlier
import Mathlib.Data.List.Forall2

/-!
What becomes of the lines that declare attributes.

* `AttributeLine.read_cases`: the outcomes of a line.
* `hasSemantic`: whether the name on a line is mapped.
* `AttributeInterface.placed_ofLines`, `AttributeInterface.statements_ofLines`: what a run binds.
* `AttributeInterface.used_ofLines`: the table holds the newest semantic at each location.
* `AttributeInterface.reports_ofLines`: what a run reports, line by line.
* `forall₂_mappedAttributes`, `forall₂_placed`, `filter_unmapped`: lines with a semantic are bound
  in order, and each other line is reported in order.
-/

namespace GlslLayout

set_option autoImplicit false

variable {semantics : SemanticMap}

/-! ## One line -/

theorem AttributeLine.read_cases (semantics : SemanticMap) (line : String) :
    (Declarator.read? line = none ∧ AttributeLine.read semantics line = .malformed) ∨
    (∃ d, Declarator.read? line = some d ∧ semantics[d.name]? = none ∧
      AttributeLine.read semantics line = .unmapped d.name) ∨
    ∃ d semantic, Declarator.read? line = some d ∧ semantics[d.name]? = some semantic ∧
      AttributeLine.read semantics line = .mapped ⟨d, semantic⟩ := by
  unfold AttributeLine.read
  cases hread : Declarator.read? line with
  | none => exact Or.inl ⟨rfl, rfl⟩
  | some d =>
    right
    cases hsemantic : semantics[d.name]? with
    | none => exact Or.inl ⟨d, rfl, hsemantic, by simp [hsemantic]⟩
    | some semantic => exact Or.inr ⟨d, semantic, rfl, hsemantic, by simp [hsemantic]⟩

/-- The attribute of a line, if it has a semantic. -/
def AttributeLine.mapped? : AttributeLine → Option MappedAttribute
  | .mapped a => some a
  | _ => none

/-- The attributes of the lines that have a semantic, in order. -/
def mappedAttributes (semantics : SemanticMap) (lines : List String) : List MappedAttribute :=
  lines.filterMap fun line => (AttributeLine.read semantics line).mapped?

theorem mappedAttributes_concat (semantics : SemanticMap) (lines : List String) (line : String) :
    mappedAttributes semantics (lines ++ [line]) =
      mappedAttributes semantics lines ++ (AttributeLine.read semantics line).mapped?.toList := by
  rw [mappedAttributes, List.filterMap_append]
  cases h : (AttributeLine.read semantics line).mapped? <;> simp [h, mappedAttributes]

theorem read?_of_mem_mappedAttributes {lines : List String} {a : MappedAttribute}
    (h : a ∈ mappedAttributes semantics lines) :
    (∃ line ∈ lines, Declarator.read? line = some a.declared) ∧
      semantics[a.declared.name]? = some a.semantic := by
  obtain ⟨line, hline, hmapped⟩ := List.mem_filterMap.1 h
  rcases AttributeLine.read_cases semantics line with
    ⟨-, hread⟩ | ⟨d, -, -, hread⟩ | ⟨d, semantic, hd, hsemantic, hread⟩
  · rw [hread] at hmapped
    cases hmapped
  · rw [hread] at hmapped
    cases hmapped
  · rw [hread] at hmapped
    obtain rfl := Option.some.inj hmapped
    exact ⟨⟨line, hline, hd⟩, hsemantic⟩

theorem kind_collisionReport {policy : Policy} {previous : Option Semantic} {semantic : Semantic}
    {r : Diagnostic} (h : r ∈ collisionReport policy previous semantic) :
    r.kind = .attributeLocationCollision := by
  unfold collisionReport at h
  split at h
  · cases h
  · split at h
    · cases h
    · rw [List.mem_singleton.1 h]
      rfl

/-! ## The newest semantic at a location -/

/-- The last of some semantics that has the location. -/
def newestAt (taken : List Semantic) (location : Nat) : Option Semantic :=
  taken.reverse.find? fun s => s.location == location

theorem newestAt_concat (taken : List Semantic) (semantic : Semantic) (location : Nat) :
    newestAt (taken ++ [semantic]) location =
      if semantic.location = location then some semantic else newestAt taken location := by
  rw [newestAt, List.reverse_append, List.reverse_singleton, List.singleton_append]
  by_cases h : semantic.location = location
  · simp [h]
  · simp [h, newestAt]

/-! ## Whole runs -/

/-- What is reported about a line behind earlier ones. -/
def attributeLineReports (policy : Policy) (semantics : SemanticMap) (earlier : List String)
    (line : String) : List Diagnostic :=
  match AttributeLine.read semantics line with
  | .malformed => [(Problem.malformedAttribute line).error (some .vertex)]
  | .unmapped name => [(Problem.unmappedAttribute name).warning (some .vertex)]
  | .mapped a => collisionReport policy
      (newestAt ((mappedAttributes semantics earlier).map MappedAttribute.semantic)
        a.semantic.location) a.semantic

namespace AttributeInterface

variable (policy : Policy) (host : Host) (semantics : SemanticMap) (lines : List String)

theorem ofLines_concat (line : String) :
    ofLines policy host semantics (lines ++ [line]) =
      add policy host semantics (ofLines policy host semantics lines) line := by
  rw [ofLines, List.foldl_append]
  rfl

theorem placed_ofLines :
    (ofLines policy host semantics lines).placed =
      (mappedAttributes semantics lines).map (MappedAttribute.placed policy host) := by
  induction lines using List.reverseRecOn with
  | nil => rfl
  | append_singleton lines line ih =>
    rw [ofLines_concat, mappedAttributes_concat, List.map_append, ← ih, add]
    cases AttributeLine.read semantics line with
    | malformed => exact (List.append_nil _).symm
    | unmapped name => exact (List.append_nil _).symm
    | mapped a => rfl

theorem statements_ofLines :
    (ofLines policy host semantics lines).statements =
      (mappedAttributes semantics lines).flatMap (MappedAttribute.statements policy host) := by
  induction lines using List.reverseRecOn with
  | nil => rfl
  | append_singleton lines line ih =>
    rw [ofLines_concat, mappedAttributes_concat, List.flatMap_append, ← ih, add]
    cases AttributeLine.read semantics line with
    | malformed => exact (List.append_nil _).symm
    | unmapped name => exact (List.append_nil _).symm
    | mapped a => exact congrArg _ (List.flatMap_singleton _ a).symm

/-- The table is overwritten, so that it holds the newest semantic at each location. -/
theorem used_ofLines (location : Nat) :
    (ofLines policy host semantics lines).used[location]? =
      newestAt ((mappedAttributes semantics lines).map MappedAttribute.semantic) location := by
  induction lines using List.reverseRecOn with
  | nil => rfl
  | append_singleton lines line ih =>
    rw [ofLines_concat, mappedAttributes_concat, List.map_append, add]
    cases AttributeLine.read semantics line with
    | malformed => exact ih.trans (congrArg (newestAt · location) (List.append_nil _).symm)
    | unmapped name => exact ih.trans (congrArg (newestAt · location) (List.append_nil _).symm)
    | mapped a =>
      have hnewest := newestAt_concat
        ((mappedAttributes semantics lines).map MappedAttribute.semantic) a.semantic location
      simp only [AttributeLine.mapped?, Option.toList_some, List.map_singleton, hnewest, bind,
        Std.TreeMap.getElem?_insert, Std.LawfulEqCmp.compare_eq_iff_eq, ih]

theorem reports_ofLines :
    (ofLines policy host semantics lines).reports =
      flatMapEarlier (attributeLineReports policy semantics) lines := by
  induction lines using List.reverseRecOn with
  | nil => rfl
  | append_singleton lines line ih =>
    have hused := used_ofLines policy host semantics lines
    rw [ofLines_concat, flatMapEarlier_concat, ← ih, add, attributeLineReports]
    cases AttributeLine.read semantics line with
    | malformed => rfl
    | unmapped name => rfl
    | mapped a => simp only [bind, hused]

theorem kind_reports :
    ∀ r ∈ (ofLines policy host semantics lines).reports,
      r.kind ∈ [Kind.malformedDeclaration, .unmappedAttribute, .attributeLocationCollision] := by
  intro r hr
  rw [reports_ofLines, mem_flatMapEarlier] at hr
  obtain ⟨line, i, -, hr⟩ := hr
  unfold attributeLineReports at hr
  split at hr
  · rw [List.mem_singleton.1 hr]
    exact List.mem_cons_self
  · rw [List.mem_singleton.1 hr]
    exact List.mem_cons_of_mem _ List.mem_cons_self
  · rw [kind_collisionReport hr]
    decide

end AttributeInterface

/-! ## Lines with and without a semantic -/

/-- Whether a line has a second word, and that has a semantic. -/
def hasSemantic (semantics : SemanticMap) (line : String) : Bool :=
  (secondWord? line).any semantics.contains

theorem hasSemantic_of_none {line : String} (h : Declarator.read? line = none) :
    hasSemantic semantics line = false := by
  rw [hasSemantic, Declarator.secondWord?_of_none h]
  rfl

theorem hasSemantic_of_read? {line : String} {d : Declarator} (h : Declarator.read? line = some d) :
    hasSemantic semantics line = semantics[d.name]?.isSome := by
  rw [hasSemantic, Declarator.secondWord?_of_read? h, Option.any_some,
    Std.TreeMap.contains_eq_isSome_getElem?]

theorem forall₂_mappedAttributes (semantics : SemanticMap) (lines : List String) :
    List.Forall₂
      (fun line a => a.declared.Opens line ∧ semantics[a.declared.name]? = some a.semantic)
      (lines.filter (hasSemantic semantics)) (mappedAttributes semantics lines) := by
  unfold mappedAttributes
  induction lines with
  | nil => exact .nil
  | cons line lines ih =>
    rw [List.filter_cons, List.filterMap_cons]
    rcases AttributeLine.read_cases semantics line with
      ⟨hd, hread⟩ | ⟨d, hd, hsemantic, hread⟩ | ⟨d, semantic, hd, hsemantic, hread⟩
    · rw [hasSemantic_of_none hd, if_neg Bool.false_ne_true, hread]
      exact ih
    · rw [hasSemantic_of_read? hd, hsemantic, if_neg (by simp), hread]
      exact ih
    · rw [hasSemantic_of_read? hd, hsemantic, if_pos Option.isSome_some, hread]
      exact .cons ⟨Declarator.read?_eq_some_iff.1 hd, hsemantic⟩ ih

theorem forall₂_placed (policy : Policy) (host : Host) (lines : List String) :
    List.Forall₂
      (fun line b => ∃ d semantic, Declarator.Opens d line ∧
        semantics[d.name]? = some semantic ∧ b = MappedAttribute.placed policy host ⟨d, semantic⟩)
      (lines.filter (hasSemantic semantics))
      (AttributeInterface.ofLines policy host semantics lines).placed := by
  rw [AttributeInterface.placed_ofLines]
  refine List.forall₂_map_right_iff.2 ((forall₂_mappedAttributes semantics lines).imp ?_)
  exact fun line a ha => ⟨a.declared, a.semantic, ha.1, ha.2, rfl⟩

theorem filter_unmapped (policy : Policy) (host : Host) {lines : List String}
    (hlines : ∀ line ∈ lines, ∃ d, Declarator.read? line = some d) :
    List.Forall₂
      (fun line r => ∃ d, Declarator.Opens d line ∧ semantics[d.name]? = none ∧
        r = (Problem.unmappedAttribute d.name).warning (some .vertex))
      (lines.filter fun line => !hasSemantic semantics line)
      ((AttributeInterface.ofLines policy host semantics lines).reports.filter
        fun r => r.kind == .unmappedAttribute) := by
  rw [AttributeInterface.reports_ofLines]
  induction lines using List.reverseRecOn with
  | nil => exact .nil
  | append_singleton lines line ih =>
    have hfront := ih fun l hl => hlines l (List.mem_append_left [line] hl)
    rw [flatMapEarlier_concat, List.filter_append, List.filter_append]
    refine List.rel_append hfront ?_
    rcases AttributeLine.read_cases semantics line with
      ⟨hd, -⟩ | ⟨d, hd, hsemantic, hread⟩ | ⟨d, semantic, hd, hsemantic, hread⟩
    · obtain ⟨d, hsome⟩ := hlines line (by simp)
      rw [hd] at hsome
      cases hsome
    · rw [attributeLineReports, hread, List.filter_singleton, hasSemantic_of_read? hd, hsemantic]
      exact .cons ⟨d, Declarator.read?_eq_some_iff.1 hd, hsemantic, rfl⟩ .nil
    · have hcollision : (attributeLineReports policy semantics lines line).filter
          (fun r => r.kind == .unmappedAttribute) = [] := by
        rw [attributeLineReports, hread, List.filter_eq_nil_iff]
        intro r hr hkind
        rw [kind_collisionReport hr] at hkind
        exact absurd hkind (by decide)
      rw [hcollision, List.filter_singleton, hasSemantic_of_read? hd, hsemantic]
      exact .nil

end GlslLayout
