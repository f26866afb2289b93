import GlslLayout.Proofs.Attribute
import GlslLayout.Proofs.Merging
import GlslLayout.Proofs.Varying

/-!
A line that declares nothing does not disturb the lines around it.

* `ReportsApart`: a pass that takes lines one by one, whose results do not depend on its reports.
* `Undisturbed`: one more line leaves the results as they are and adds its own reports at one place.
* `ReportsApart.undisturbed`: so it is in every such pass, wherever the line stands.
* `undisturbed_by_badLine`: bad lines among uniforms, varyings and attributes.
-/

namespace GlslLayout

set_option autoImplicit false

/-! ## Passes over lines -/

/-- What is seen of a result stays the same, and the reports are the old ones with `added`, at least
one, put in at one place. -/
structure Undisturbed {σ β : Type} (view : σ → β) (reports : σ → List Diagnostic)
    (added : List Diagnostic) (old new : σ) : Prop where
  same : view new = view old
  reported : added ≠ []
  inserted : ∃ before after, reports old = before ++ after ∧ reports new = before ++ added ++ after

/-- A further view of the result is undisturbed too if it is made of the first. -/
theorem Undisturbed.map {σ β γ : Type} {view : σ → β} {reports : σ → List Diagnostic}
    {added : List Diagnostic} {old new : σ} (h : Undisturbed view reports added old new)
    (f : β → γ) : Undisturbed (fun s => f (view s)) reports added old new where
  same := congrArg f h.same
  reported := h.reported
  inserted := h.inserted

/-- A pass that takes entries one by one: what an entry does to the results, and what it reports,
depends only on the results so far. -/
structure ReportsApart {σ ι β : Type} (add : σ → ι → σ) (view : σ → β)
    (reports : σ → List Diagnostic) : Prop where
  same : ∀ s t l, view s = view t → view (add s l) = view (add t l)
  appended : ∀ s t l, view s = view t →
    ∃ more, reports (add s l) = reports s ++ more ∧ reports (add t l) = reports t ++ more

namespace ReportsApart

variable {σ ι β : Type} {add : σ → ι → σ} {view : σ → β} {reports : σ → List Diagnostic}

theorem of_step (h : ∀ s t l, view s = view t → view (add s l) = view (add t l) ∧
    ∃ more, reports (add s l) = reports s ++ more ∧ reports (add t l) = reports t ++ more) :
    ReportsApart add view reports :=
  ⟨fun s t l hst => (h s t l hst).1, fun s t l hst => (h s t l hst).2⟩

/-- From two states with the same results, a whole run goes the same way. -/
theorem foldl (h : ReportsApart add view reports) (ls : List ι) {s t : σ} (hst : view s = view t) :
    view (ls.foldl add s) = view (ls.foldl add t) ∧
      ∃ more, reports (ls.foldl add s) = reports s ++ more ∧
        reports (ls.foldl add t) = reports t ++ more := by
  induction ls generalizing s t with
  | nil => exact ⟨hst, [], by simp⟩
  | cons l ls ih =>
    obtain ⟨first, hs, ht⟩ := h.appended s t l hst
    obtain ⟨hview, more, hsmore, htmore⟩ := ih (h.same s t l hst)
    refine ⟨hview, first ++ more, ?_, ?_⟩
    · rw [List.foldl_cons, hsmore, hs, List.append_assoc]
    · rw [List.foldl_cons, htmore, ht, List.append_assoc]

/-- An entry that only is reported leaves the results of the whole run as they are. -/
theorem undisturbed (h : ReportsApart add view reports) {l : ι} {added : List Diagnostic}
    (hview : ∀ s, view (add s l) = view s) (hreports : ∀ s, reports (add s l) = reports s ++ added)
    (hadded : added ≠ []) (s : σ) (front back : List ι) :
    Undisturbed view reports added ((front ++ back).foldl add s)
      ((front ++ l :: back).foldl add s) := by
  rw [List.foldl_append, List.foldl_append, List.foldl_cons]
  obtain ⟨hsame, more, hnew, hold⟩ := h.foldl back (hview (front.foldl add s))
  refine ⟨hsame, hadded, reports (front.foldl add s), more, hold, ?_⟩
  rw [hnew, hreports]

end ReportsApart

/-! ## Uniforms -/

namespace MergedUniforms

theorem reportsApart_add : ReportsApart add uniforms reports := by
  refine .of_step fun s t l hst => ?_
  unfold add
  cases hread : Uniform.read? l.line with
  | none => exact ⟨hst, _, rfl, rfl⟩
  | some u =>
    simp only [hst]
    cases t.uniforms.find? fun earlier => earlier.name == u.name with
    | none => exact ⟨rfl, _, rfl, rfl⟩
    | some earlier => exact ⟨rfl, _, List.append_assoc _ _ _, List.append_assoc _ _ _⟩

theorem add_of_read?_eq_none {l : StageLine} (h : Uniform.read? l.line = none)
    (m : MergedUniforms) :
    m.add l = ⟨m.uniforms, m.reports ++ Uniform.reports (some l.stage) l.line⟩ := by
  simp only [add, h]

theorem reports_ne_nil_of_read? {line : String} (h : Uniform.read? line = none)
    (stage : Option Stage) : Uniform.reports stage line ≠ [] := by
  intro hnil
  obtain ⟨u, hread⟩ := Uniform.reports_eq_nil_iff.1 hnil
  rw [Uniform.read?_of_read hread rfl] at h
  cases h

/-- A text that stands on no other line is kept, and it hides no other line. -/
theorem distinctLines_insert {front back : List StageLine} {l : StageLine}
    (h : ∀ other ∈ front ++ back, other.line ≠ l.line) :
    ∃ front' back', distinctLines (front ++ back) = front' ++ back' ∧
      distinctLines (front ++ l :: back) = front' ++ l :: back' := by
  induction front with
  | nil =>
    refine ⟨[], distinctLines back, rfl, ?_⟩
    have hall : (distinctLines back).filter (fun other => other.line != l.line) =
        distinctLines back := by
      rw [List.filter_eq_self]
      intro other hother
      exact bne_iff_ne.2 (h other (mem_of_mem_distinctLines hother))
    rw [List.nil_append, distinctLines, hall, List.nil_append]
  | cons first front ih =>
    obtain ⟨front', back', hold, hnew⟩ := ih fun other hother =>
      h other (List.mem_cons_of_mem first hother)
    have hfirst : (l.line != first.line) = true := bne_iff_ne.2 (h first (by simp)).symm
    refine ⟨first :: front'.filter fun other => other.line != first.line,
      back'.filter fun other => other.line != first.line, ?_, ?_⟩
    · rw [List.cons_append, distinctLines, hold, List.filter_append, List.cons_append]
    · rw [List.cons_append, distinctLines, hnew, List.filter_append, List.filter_cons,
        if_pos hfirst, List.cons_append]

theorem undisturbed_foldl {front back : List StageLine} {l : StageLine}
    (hread : Uniform.read? l.line = none) (hnew : ∀ other ∈ front ++ back, other.line ≠ l.line) :
    Undisturbed uniforms reports (Uniform.reports (some l.stage) l.line)
      ((distinctLines (front ++ back)).foldl add ⟨[], []⟩)
      ((distinctLines (front ++ l :: back)).foldl add ⟨[], []⟩) := by
  obtain ⟨front', back', hold, hlonger⟩ := distinctLines_insert hnew
  rw [hold, hlonger]
  refine reportsApart_add.undisturbed ?_ ?_ (reports_ne_nil_of_read? hread _) _ _ _
  · exact fun m => by rw [add_of_read?_eq_none hread]
  · exact fun m => by rw [add_of_read?_eq_none hread]

section Stages

variable {front back other : List String} {line : String}

theorem line_ne_of_notMem {lines : List String} (stage : Stage) (h : line ∉ lines) :
    ∀ l ∈ lines.map (StageLine.mk stage), l.line ≠ line := by
  intro l hl
  obtain ⟨text, htext, rfl⟩ := List.mem_map.1 hl
  rintro rfl
  exact h htext

theorem undisturbed_vertex (hread : Uniform.read? line = none)
    (hnew : line ∉ front ++ back ++ other) :
    Undisturbed uniforms reports (Uniform.reports (some .vertex) line)
      (ofStages (front ++ back) other) (ofStages (front ++ line :: back) other) := by
  simp only [List.mem_append, not_or] at hnew
  have hbehind := List.forall_mem_append.2
    ⟨line_ne_of_notMem .vertex hnew.1.2, line_ne_of_notMem .fragment hnew.2⟩
  have hlines := List.forall_mem_append.2 ⟨line_ne_of_notMem .vertex hnew.1.1, hbehind⟩
  have hfold := undisturbed_foldl (l := ⟨.vertex, line⟩) hread hlines
  simpa [ofStages, stageLines] using hfold

theorem undisturbed_fragment (hread : Uniform.read? line = none)
    (hnew : line ∉ front ++ back ++ other) :
    Undisturbed uniforms reports (Uniform.reports (some .fragment) line)
      (ofStages other (front ++ back)) (ofStages other (front ++ line :: back)) := by
  simp only [List.mem_append, not_or] at hnew
  have hlines := List.forall_mem_append.2 ⟨List.forall_mem_append.2
    ⟨line_ne_of_notMem .vertex hnew.2, line_ne_of_notMem .fragment hnew.1.1⟩,
      line_ne_of_notMem .fragment hnew.1.2⟩
  have hfold := undisturbed_foldl (l := ⟨.fragment, line⟩) hread hlines
  simpa [ofStages, stageLines] using hfold

end Stages

end MergedUniforms

/-! ## Varyings -/

theorem VertexVaryings.reportsApart_add :
    ReportsApart add (fun v => (v.placed, v.locations)) VaryingInterface.reports := by
  refine .of_step fun v w line hvw => ?_
  obtain ⟨hplaced, hlocations⟩ := Prod.mk.inj hvw
  unfold add
  cases Declarator.read? line with
  | none => exact ⟨hvw, _, rfl, rfl⟩
  | some d =>
    simp only [hlocations]
    cases w.locations[d.name]? with
    | some location => exact ⟨hvw, _, rfl, rfl⟩
    | none =>
      refine ⟨?_, [], (List.append_nil _).symm, (List.append_nil _).symm⟩
      simp only [bindNext, VaryingInterface.bind, hplaced, hlocations]

theorem FragmentVaryings.reportsApart_add :
    ReportsApart add (fun v => (v.placed, v.locations)) VaryingInterface.reports := by
  refine .of_step fun v w line hvw => ?_
  obtain ⟨hplaced, hlocations⟩ := Prod.mk.inj hvw
  unfold add
  cases Declarator.read? line with
  | none => exact ⟨hvw, _, rfl, rfl⟩
  | some d =>
    simp only [hlocations]
    cases w.locations[d.name]? with
    | none => exact ⟨hvw, _, rfl, rfl⟩
    | some location =>
      refine ⟨?_, [], (List.append_nil _).symm, (List.append_nil _).symm⟩
      simp only [VaryingInterface.bind, hplaced, hlocations]

section Varyings

variable {line : String} (hread : Declarator.read? line = none) (front back : List String)

include hread

theorem VertexVaryings.undisturbed_ofLines :
    Undisturbed (fun v => (v.placed, v.locations)) VaryingInterface.reports
      [(Problem.malformedVarying line).error (some .vertex)]
      (ofLines (front ++ back)) (ofLines (front ++ line :: back)) := by
  refine reportsApart_add.undisturbed ?_ ?_ (List.cons_ne_nil _ _) _ _ _
  · exact fun v => by simp only [add, hread, VaryingInterface.report]
  · exact fun v => by simp only [add, hread, VaryingInterface.report]

theorem FragmentVaryings.undisturbed_ofLines (locations : LocationMap) :
    Undisturbed (fun v => (v.placed, v.locations)) VaryingInterface.reports
      [(Problem.malformedVarying line).error (some .fragment)]
      (ofLines locations (front ++ back)) (ofLines locations (front ++ line :: back)) := by
  refine reportsApart_add.undisturbed ?_ ?_ (List.cons_ne_nil _ _) _ _ _
  · exact fun v => by simp only [add, hread, VaryingInterface.report]
  · exact fun v => by simp only [add, hread, VaryingInterface.report]

end Varyings

/-! ## Attributes -/

namespace AttributeInterface

variable (policy : Policy) (host : Host) (semantics : SemanticMap)

theorem reportsApart_add :
    ReportsApart (add policy host semantics) (fun i => (i.placed, i.statements, i.used))
      reports := by
  refine .of_step fun i j line hij => ?_
  obtain ⟨hplaced, hrest⟩ := Prod.mk.inj hij
  obtain ⟨hstatements, hused⟩ := Prod.mk.inj hrest
  unfold add
  cases AttributeLine.read semantics line with
  | malformed => exact ⟨hij, _, rfl, rfl⟩
  | unmapped name => exact ⟨hij, _, rfl, rfl⟩
  | mapped a =>
    refine ⟨?_, _, rfl, ?_⟩
    · simp only [bind, hplaced, hstatements, hused]
    · simp only [bind, hused]

/-- A line without an attribute adds its report and leaves the table in front of the other lines as
it is. -/
theorem undisturbed_ofLines (front back : List String) {line : String} {r : Diagnostic}
    (hline : ∀ i, add policy host semantics i line = i.report r) :
    Undisturbed (fun i => (i.placed, i.statements, i.used)) reports [r]
      (ofLines policy host semantics (front ++ back))
      (ofLines policy host semantics (front ++ line :: back)) := by
  refine (reportsApart_add policy host semantics).undisturbed ?_ ?_ (List.cons_ne_nil _ _) _ _ _
  · exact fun i => by simp only [hline, report]
  · exact fun i => by simp only [hline, report]

end AttributeInterface

/-! ## Bad lines -/

/-- A uniform line that declares nothing and repeats no other line, a varying or attribute line of
fewer than two words, and an attribute line whose name has no semantic: each of them leaves all that
is bound and written as it is, wherever it stands, and is reported by itself. -/
theorem undisturbed_by_badLine (policy : Policy) (host : Host) (semantics : SemanticMap)
    (locations : LocationMap) (front back other : List String) (line : String) :
    (Uniform.read? line = none → line ∉ front ++ back ++ other →
      Undisturbed MergedUniforms.uniforms MergedUniforms.reports
        (Uniform.reports (some .vertex) line) (.ofStages (front ++ back) other)
        (.ofStages (front ++ line :: back) other) ∧
      Undisturbed MergedUniforms.uniforms MergedUniforms.reports
        (Uniform.reports (some .fragment) line) (.ofStages other (front ++ back))
        (.ofStages other (front ++ line :: back))) ∧
    ((Text.words line.toList).length < 2 →
      Undisturbed (fun v => (v.placed, Statement.code (VertexVaryings.statements v), v.locations))
        VaryingInterface.reports [(Problem.malformedVarying line).error (some .vertex)]
        (VertexVaryings.ofLines (front ++ back)) (VertexVaryings.ofLines (front ++ line :: back)) ∧
      Undisturbed (fun v => (v.placed, Statement.code (FragmentVaryings.statements v)))
        VaryingInterface.reports [(Problem.malformedVarying line).error (some .fragment)]
        (FragmentVaryings.ofLines locations (front ++ back))
        (FragmentVaryings.ofLines locations (front ++ line :: back)) ∧
      Undisturbed (fun i => (i.placed, Statement.code i.statements)) AttributeInterface.reports
        [(Problem.malformedAttribute line).error (some .vertex)]
        (.ofLines policy host semantics (front ++ back))
        (.ofLines policy host semantics (front ++ line :: back))) ∧
    (∀ d, Declarator.Opens d line → semantics[d.name]? = none →
      Undisturbed (fun i => (i.placed, Statement.code i.statements)) AttributeInterface.reports
        [(Problem.unmappedAttribute d.name).warning (some .vertex)]
        (.ofLines policy host semantics (front ++ back))
        (.ofLines policy host semantics (front ++ line :: back))) := by
  refine ⟨fun hread hnew => ?_, fun hwords => ?_, fun d hopens hsemantic => ?_⟩
  · exact ⟨MergedUniforms.undisturbed_vertex hread hnew,
      MergedUniforms.undisturbed_fragment hread hnew⟩
  · have hread := Declarator.read?_eq_none_iff.2 hwords
    have hmalformed : AttributeLine.read semantics line = .malformed := by
      simp only [AttributeLine.read, hread]
    have hattributes := AttributeInterface.undisturbed_ofLines policy host semantics front back
      fun i => by rw [AttributeInterface.add, hmalformed]
    have hvertex := VertexVaryings.undisturbed_ofLines hread front back
    have hfragment := FragmentVaryings.undisturbed_ofLines hread front back locations
    refine ⟨?_, ?_, hattributes.map fun bound => (bound.1, Statement.code bound.2.1)⟩
    · exact hvertex.map fun bound =>
        (bound.1, Statement.code (bound.1.map (PlacedVarying.statement .outgoing)), bound.2)
    · exact hfragment.map fun bound =>
        (bound.1, Statement.code (bound.1.map (PlacedVarying.statement .incoming)))
  · have hread := Declarator.read?_eq_some_iff.2 hopens
    have hunmapped : AttributeLine.read semantics line = .unmapped d.name := by
      simp only [AttributeLine.read, hread, hsemantic]
    have hattributes := AttributeInterface.undisturbed_ofLines policy host semantics front back
      fun i => by rw [AttributeInterface.add, hunmapped]
    exact hattributes.map fun bound => (bound.1, Statement.code bound.2.1)

/-- An array without a numeral, a type without a name, and an attribute without a semantic, each
between two good lines. -/
theorem undisturbed_by_badLine_looseEnds :
    Uniform.read? "vec4 tints[SIZE]" = none ∧
    "vec4 tints[SIZE]" ∉ ["float gain"] ++ ["mat4 bones[4]"] ++ ["float gain", "vec2 gain"] ∧
    Undisturbed MergedUniforms.uniforms MergedUniforms.reports
      (Uniform.reports (some .fragment) "vec4 tints[SIZE]")
      (.ofStages ["float gain", "vec2 gain"] ["float gain", "mat4 bones[4]"])
      (.ofStages ["float gain", "vec2 gain"] ["float gain", "vec4 tints[SIZE]", "mat4 bones[4]"]) ∧
    (Text.words "vec2".toList).length < 2 ∧
    Undisturbed (fun v => (v.placed, Statement.code (VertexVaryings.statements v), v.locations))
      VaryingInterface.reports [(Problem.malformedVarying "vec2").error (some .vertex)]
      (VertexVaryings.ofLines ["vec2 uv", "vec3 n"])
      (VertexVaryings.ofLines ["vec2 uv", "vec2", "vec3 n"]) ∧
    Declarator.Opens ⟨"vec3", "q"⟩ "vec3 q" ∧
    (Std.TreeMap.ofList [("p", Semantic.position)] : SemanticMap)["q"]? = none ∧
    Undisturbed (fun i => (i.placed, Statement.code i.statements)) AttributeInterface.reports
      [(Problem.unmappedAttribute "q").warning (some .vertex)]
      (.ofLines {} {} (.ofList [("p", Semantic.position)]) ["vec3 p", "vec3 p"])
      (.ofLines {} {} (.ofList [("p", Semantic.position)]) ["vec3 p", "vec3 q", "vec3 p"]) := by
  have hread : Uniform.read? "vec4 tints[SIZE]" = none := by decide +kernel
  have hnew : "vec4 tints[SIZE]" ∉
      ["float gain"] ++ ["mat4 bones[4]"] ++ ["float gain", "vec2 gain"] := by decide
  have hwords : (Text.words "vec2".toList).length < 2 := by decide +kernel
  have hq : Declarator.Opens ⟨"vec3", "q"⟩ "vec3 q" := ⟨[], by decide +kernel⟩
  have hsemantic : (Std.TreeMap.ofList [("p", Semantic.position)] : SemanticMap)["q"]? = none := by
    decide +kernel
  refine ⟨hread, hnew, ?_, hwords, ?_, hq, hsemantic, ?_⟩
  · exact ((undisturbed_by_badLine {} {} ∅ ∅ _ _ _ _).1 hread hnew).2
  · exact ((undisturbed_by_badLine {} {} ∅ ∅ ["vec2 uv"] ["vec3 n"] [] "vec2").2.1 hwords).1
  · exact (undisturbed_by_badLine {} {} _ ∅ ["vec3 p"] ["vec3 p"] [] "vec3 q").2.2 _ hq hsemantic

end GlslLayout
