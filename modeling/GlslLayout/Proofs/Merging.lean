import GlslLayout.Proofs.Earlier
import GlslLayout.Proofs.Uniform
import Mathlib.Data.List.Forall2

/-!
Merging the uniforms of two stages: the first declaration of each name wins.

* `firstUniforms`, `overruledLines`: the lines that declare a new name, and those that declare a
  name again.
* `distinctLines_stageLines`: the lines of both stages, each once, with the stage it first stands
  in.
* `MergedUniforms.Reflects`: merged uniforms that are exactly what their lines amount to; every
  further line keeps them so (`MergedUniforms.Reflects.add`).
* `MergedUniforms.ofStages_mergesFirst`: what a merge returns and reports, on what it depends, and
  that it changes nothing when it is done again.
-/

namespace GlslLayout

set_option autoImplicit false

/-! ## Names in lines -/

/-- The names that lines declare. -/
def uniformNames (lines : List String) : List String :=
  (lines.filterMap Uniform.read?).map Uniform.name

/-- The uniforms of the lines whose name no earlier line declares. -/
def firstUniforms (lines : List String) : List Uniform :=
  flatMapEarlier (fun earlier line =>
    ((Uniform.read? line).filter fun u => u.name ∉ uniformNames earlier).toList) lines

/-- The lines that declare a name which an earlier line declares. -/
def overruledLines (lines : List String) : List String :=
  flatMapEarlier (fun earlier line =>
    if (Uniform.read? line).any fun u => u.name ∈ uniformNames earlier then [line] else []) lines

theorem uniformNames_concat_none {lines : List String} {line : String}
    (h : Uniform.read? line = none) : uniformNames (lines ++ [line]) = uniformNames lines := by
  simp [uniformNames, h]

theorem uniformNames_concat_some {lines : List String} {line : String} {u : Uniform}
    (h : Uniform.read? line = some u) :
    uniformNames (lines ++ [line]) = uniformNames lines ++ [u.name] := by
  simp [uniformNames, h]

section Concat

variable {lines : List String} {line : String} {u : Uniform}

theorem firstUniforms_concat_none (h : Uniform.read? line = none) :
    firstUniforms (lines ++ [line]) = firstUniforms lines := by
  rw [firstUniforms, flatMapEarlier_concat]
  simp [h, firstUniforms]

theorem firstUniforms_concat_new (h : Uniform.read? line = some u)
    (hnew : u.name ∉ uniformNames lines) :
    firstUniforms (lines ++ [line]) = firstUniforms lines ++ [u] := by
  rw [firstUniforms, flatMapEarlier_concat]
  simp [h, hnew, firstUniforms]

theorem firstUniforms_concat_again (h : Uniform.read? line = some u)
    (hagain : u.name ∈ uniformNames lines) :
    firstUniforms (lines ++ [line]) = firstUniforms lines := by
  rw [firstUniforms, flatMapEarlier_concat]
  simp [h, hagain, firstUniforms]

theorem overruledLines_concat_none (h : Uniform.read? line = none) :
    overruledLines (lines ++ [line]) = overruledLines lines := by
  rw [overruledLines, flatMapEarlier_concat]
  simp [h, overruledLines]

theorem overruledLines_concat_new (h : Uniform.read? line = some u)
    (hnew : u.name ∉ uniformNames lines) :
    overruledLines (lines ++ [line]) = overruledLines lines := by
  rw [overruledLines, flatMapEarlier_concat]
  simp [h, hnew, overruledLines]

theorem overruledLines_concat_again (h : Uniform.read? line = some u)
    (hagain : u.name ∈ uniformNames lines) :
    overruledLines (lines ++ [line]) = overruledLines lines ++ [line] := by
  rw [overruledLines, flatMapEarlier_concat]
  simp [h, hagain, overruledLines]

end Concat

theorem mem_map_firstUniforms_iff (lines : List String) (name : String) :
    name ∈ (firstUniforms lines).map Uniform.name ↔ name ∈ uniformNames lines := by
  induction lines using List.reverseRecOn with
  | nil => rfl
  | append_singleton lines line ih =>
    cases hread : Uniform.read? line with
    | none => rw [firstUniforms_concat_none hread, uniformNames_concat_none hread, ih]
    | some u =>
      rw [uniformNames_concat_some hread, List.mem_append, List.mem_singleton]
      by_cases hagain : u.name ∈ uniformNames lines
      · rw [firstUniforms_concat_again hread hagain, ih]
        constructor
        · exact Or.inl
        · rintro (h | rfl)
          · exact h
          · exact hagain
      · rw [firstUniforms_concat_new hread hagain, List.map_append, List.mem_append, ih]
        simp

/-! ## Lines of two stages -/

theorem distinctLines_concat (ls : List StageLine) (l : StageLine) :
    distinctLines (ls ++ [l]) =
      if l.line ∈ ls.map StageLine.line then distinctLines ls else distinctLines ls ++ [l] := by
  induction ls with
  | nil => rfl
  | cons first ls ih =>
    rw [List.cons_append, distinctLines, ih, distinctLines]
    by_cases hmem : l.line ∈ ls.map StageLine.line
    · have hold : l.line ∈ (first :: ls).map StageLine.line := List.mem_cons_of_mem _ hmem
      rw [if_pos hmem, if_pos hold]
    · rw [if_neg hmem, List.filter_append]
      by_cases hfirst : l.line = first.line
      · simp [hfirst]
      · have hnot : l.line ∉ (first :: ls).map StageLine.line := by
          rw [List.map_cons, List.mem_cons]
          exact fun h => h.elim hfirst hmem
        rw [if_neg hnot]
        simp [hfirst]

theorem distinctLines_map (stage : Stage) (lines : List String) :
    distinctLines (lines.map (StageLine.mk stage)) = lines.eraseDups.map (StageLine.mk stage) := by
  induction lines using List.reverseRecOn with
  | nil => rfl
  | append_singleton lines line ih =>
    rw [List.map_append, List.map_singleton, distinctLines_concat, eraseDups_concat, ih, List.map_map]
    by_cases hmem : line ∈ lines
    · rw [if_pos hmem, if_pos (by simpa using hmem)]
    · rw [if_neg hmem, if_neg (by simpa using hmem), List.map_append]
      rfl

/-- The stage in which a line first occurs, given the lines of the vertex stage. -/
def firstStage (vertex : List String) (line : String) : Stage :=
  if line ∈ vertex then .vertex else .fragment

theorem distinctLines_stageLines (vertex fragment : List String) :
    distinctLines (stageLines vertex fragment) =
      (vertex ++ fragment).eraseDups.map fun line => ⟨firstStage vertex line, line⟩ := by
  induction fragment using List.reverseRecOn with
  | nil =>
    rw [stageLines, List.map_nil, List.append_nil, List.append_nil, distinctLines_map]
    refine List.map_congr_left fun line hline => ?_
    rw [firstStage, if_pos (List.mem_eraseDups.1 hline)]
  | append_singleton fragment line ih =>
    have hlines : stageLines vertex (fragment ++ [line]) =
        stageLines vertex fragment ++ [⟨.fragment, line⟩] := by
      simp [stageLines]
    have hmem : line ∈ (stageLines vertex fragment).map StageLine.line ↔ line ∈ vertex ++ fragment := by
      simp [stageLines, Function.comp_def]
    rw [hlines, distinctLines_concat, ih, ← List.append_assoc, eraseDups_concat]
    by_cases hold : line ∈ vertex ++ fragment
    · rw [if_pos hold, if_pos (hmem.2 hold)]
    · have hvertex : line ∉ vertex := fun h => hold (List.mem_append_left fragment h)
      rw [if_neg hold, if_neg (mt hmem.1 hold), List.map_append, List.map_singleton, firstStage,
        if_neg hvertex]

/-! ## Merging line by line -/

namespace MergedUniforms

def isMismatch (r : Diagnostic) : Bool :=
  r.kind == .uniformTypeMismatch

/-- The report about a line that declares the name of an earlier uniform. -/
def Mismatch (stage : String → Stage) (uniforms : List Uniform) (line : String) (r : Diagnostic) :
    Prop :=
  ∃ u, ∃ first ∈ uniforms, Uniform.read? line = some u ∧ first.name = u.name ∧
    r = ⟨.error, .uniformTypeMismatch, some (stage line),
      "vertex and fragment shaders cannot use the same uniform name with different types: '" ++
        first.line ++ "' and '" ++ line ++ "'"⟩

/-- The merged uniforms are exactly what their lines amount to. -/
structure Reflects (stage : String → Stage) (lines : List String) (m : MergedUniforms) : Prop where
  uniforms : m.uniforms = firstUniforms lines
  mismatches : List.Forall₂ (Mismatch stage m.uniforms) (overruledLines lines)
    (m.reports.filter isMismatch)

theorem kind_of_mem_reports {stage : Option Stage} {line : String} {r : Diagnostic}
    (h : r ∈ Uniform.reports stage line) : r.kind ≠ .uniformTypeMismatch := by
  simp only [Uniform.reports] at h
  rcases List.mem_append.1 h with h | h
  · split at h
    · rw [List.mem_singleton.1 h]
      exact (by decide : Kind.multipleUniformsPerLine ≠ .uniformTypeMismatch)
    · cases h
  · split at h
    · next fault _ =>
      rw [List.mem_singleton.1 h]
      cases fault <;> simp [Problem.error, Problem.report, Uniform.Fault.problem, Problem.kind]
    · cases h

theorem filter_isMismatch_reports (stage : Option Stage) (line : String) :
    (Uniform.reports stage line).filter isMismatch = [] := by
  rw [List.filter_eq_nil_iff]
  exact fun r hr hkind => kind_of_mem_reports hr (beq_iff_eq.1 hkind)

theorem Reflects.add {stage : String → Stage} {lines : List String} {m : MergedUniforms}
    (h : Reflects stage lines m) (line : String) :
    Reflects stage (lines ++ [line]) (m.add ⟨stage line, line⟩) := by
  have hnames : ∀ name, name ∈ m.uniforms.map Uniform.name ↔ name ∈ uniformNames lines := by
    intro name
    rw [h.uniforms, mem_map_firstUniforms_iff]
  rcases add_cases m ⟨stage line, line⟩ with
    ⟨hread, hadd⟩ | ⟨u, hread, hnew, hadd⟩ | ⟨u, first, hfirst, hread, hname, hadd⟩
  · rw [hadd]
    constructor
    · rw [firstUniforms_concat_none hread]
      exact h.uniforms
    · rw [overruledLines_concat_none hread, List.filter_append, filter_isMismatch_reports,
        List.append_nil]
      exact h.mismatches
  · have hfresh : u.name ∉ uniformNames lines := mt (hnames u.name).2 hnew
    rw [hadd]
    constructor
    · rw [firstUniforms_concat_new hread hfresh, h.uniforms]
    · rw [overruledLines_concat_new hread hfresh, List.filter_append, filter_isMismatch_reports,
        List.append_nil]
      refine h.mismatches.imp fun l r hr => ?_
      obtain ⟨v, earlier, hearlier, hrest⟩ := hr
      exact ⟨v, earlier, List.mem_append_left [u] hearlier, hrest⟩
  · have hagain : u.name ∈ uniformNames lines := by
      rw [← hnames, ← hname]
      exact List.mem_map_of_mem hfirst
    rw [hadd]
    constructor
    · rw [firstUniforms_concat_again hread hagain]
      exact h.uniforms
    · rw [overruledLines_concat_again hread hagain, List.filter_append, List.filter_append,
        filter_isMismatch_reports, List.append_nil]
      refine List.rel_append h.mismatches (.cons ?_ .nil)
      exact ⟨u, first, hfirst, hread, hname, rfl⟩

theorem reflects_foldl_add (stage : String → Stage) (lines : List String) :
    Reflects stage lines ((lines.map fun line => ⟨stage line, line⟩).foldl add ⟨[], []⟩) := by
  induction lines using List.reverseRecOn with
  | nil => exact ⟨rfl, .nil⟩
  | append_singleton lines line ih =>
    rw [List.map_append, List.foldl_append]
    exact ih.add line

theorem reflects_ofStages (vertex fragment : List String) :
    Reflects (firstStage vertex) (vertex ++ fragment).eraseDups (ofStages vertex fragment) := by
  rw [ofStages, distinctLines_stageLines]
  exact reflects_foldl_add _ _

/-! ## Merging again -/

theorem firstUniforms_map_line {us : List Uniform} (hread : ∀ u ∈ us, Uniform.read? u.line = some u)
    (hnodup : (us.map Uniform.name).Nodup) :
    firstUniforms (us.map Uniform.line) = us ∧ overruledLines (us.map Uniform.line) = [] := by
  induction us using List.reverseRecOn with
  | nil => exact ⟨rfl, rfl⟩
  | append_singleton us u ih =>
    rw [List.map_append, List.nodup_append] at hnodup
    obtain ⟨hus, -, hapart⟩ := hnodup
    obtain ⟨hfirst, hover⟩ := ih (fun v hv => hread v (List.mem_append_left [u] hv)) hus
    have hline : Uniform.read? u.line = some u := hread u (by simp)
    have hnew : u.name ∉ uniformNames (us.map Uniform.line) := by
      rw [← mem_map_firstUniforms_iff, hfirst]
      exact fun hmem => hapart _ hmem _ (by simp) rfl
    rw [List.map_append, List.map_singleton, firstUniforms_concat_new hline hnew,
      overruledLines_concat_new hline hnew, hfirst]
    exact ⟨rfl, hover⟩

theorem Sound.nodup_lines {m : MergedUniforms} (h : m.Sound) : (m.uniforms.map Uniform.line).Nodup := by
  refine List.Nodup.map_on ?_ (List.Nodup.of_map _ h.nodup)
  intro u hu v hv hline
  have hsame := h.read u hu
  rw [hline, h.read v hv] at hsame
  exact (Option.some.inj hsame).symm

/-- What merging the lines of two stages comes to. -/
structure MergesFirst (vertex fragment : List String) (m : MergedUniforms) : Prop where
  /-- Of the lines, each taken once, those count whose name is new. -/
  uniforms : m.uniforms = firstUniforms (vertex ++ fragment).eraseDups
  nodup : (m.uniforms.map Uniform.name).Nodup
  /-- Each other line that declares a uniform is reported once, in order. -/
  mismatches : List.Forall₂ (Mismatch (firstStage vertex) m.uniforms)
    (overruledLines (vertex ++ fragment).eraseDups) (m.reports.filter isMismatch)
  division : ∀ vertex' fragment', vertex' ++ fragment' = vertex ++ fragment →
    (ofStages vertex' fragment').uniforms = m.uniforms
  absorbed : (∀ line ∈ fragment, line ∈ vertex) → m = ofStages vertex []
  again : ∀ vertex' fragment', vertex' ++ fragment' = m.uniforms.map Uniform.line →
    (ofStages vertex' fragment').uniforms = m.uniforms ∧
      (ofStages vertex' fragment').reports.filter isMismatch = []

theorem ofStages_mergesFirst (vertex fragment : List String) :
    MergesFirst vertex fragment (ofStages vertex fragment) := by
  have hreflects := reflects_ofStages vertex fragment
  have hsound := sound_ofStages vertex fragment
  constructor
  case uniforms => exact hreflects.uniforms
  case nodup => exact hsound.nodup
  case mismatches => exact hreflects.mismatches
  case division =>
    intro vertex' fragment' hsame
    rw [(reflects_ofStages vertex' fragment').uniforms, hsame, hreflects.uniforms]
  case absorbed =>
    intro hsubset
    rw [ofStages, ofStages, distinctLines_stageLines, distinctLines_stageLines,
      eraseDups_append_of_subset hsubset, List.append_nil]
  case again =>
    intro vertex' fragment' hlines
    have hagain := reflects_ofStages vertex' fragment'
    rw [hlines, eraseDups_eq_self hsound.nodup_lines] at hagain
    obtain ⟨hfirst, hover⟩ := firstUniforms_map_line hsound.read hsound.nodup
    refine ⟨hagain.uniforms.trans hfirst, ?_⟩
    have hreports := hagain.mismatches
    rw [hover] at hreports
    exact List.forall₂_nil_left_iff.1 hreports

end MergedUniforms

end GlslLayout
