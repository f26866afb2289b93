import GlslLayout.Proofs.Statement
import GlslLayout.Uniform.Merge
import Mathlib.Data.List.Nodup

/-!
What is known about uniforms that were read and merged.

* `Uniform.read?_eq_some_iff`: what a line must hold to declare a uniform.
* `Uniform.noBreak_name_of_read?`: names of uniforms stay on one line.
* `Uniform.reports_eq_nil_iff`: when nothing is reported about a line.
* `MergedUniforms.add_cases`: what one more line does to the merged uniforms.
* `MergedUniforms.Sound`: names are distinct and each uniform is what its line declares; every merge
  keeps to it (`MergedUniforms.sound_ofStages`).
* `MergedUniforms.line_mem_of_mem_ofStages`: every merged uniform stands on a line of a stage.
-/

namespace GlslLayout

set_option autoImplicit false

namespace Uniform

/-! ## Reading -/

theorem read?_eq_some_iff {line : String} {u : Uniform} :
    read? line = some u ↔
      ∃ precision word rest name extent,
        splitPrecision (Text.words line.toList) = (precision, word :: rest) ∧
        readDeclarator (String.ofList word) (Text.joinWords rest) = .ok (name, extent) ∧
        u = {
          line, precision, extent
          type := String.ofList word
          name := String.ofList name
          isSampler := typeContains (String.ofList word) "sampler"
          isSigned := typeContains (String.ofList word) "isampler"
          isUnsigned := typeContains (String.ofList word) "usampler" } := by
  unfold read? read
  split
  · next heq =>
    split at heq
    · next hsplit => simp [hsplit]
    · next precision word rest hsplit =>
      simp only at heq
      split at heq
      · next hread =>
        simp only [reduceCtorEq, false_iff]
        rintro ⟨p, w, r, name, extent, hp, hr, -⟩
        rw [hsplit] at hp
        obtain ⟨rfl, hcons⟩ := Prod.mk.inj hp
        obtain ⟨rfl, rfl⟩ := List.cons.inj hcons
        rw [hread] at hr
        cases hr
      · cases heq
  · next v heq =>
    split at heq
    · cases heq
    · next precision word rest hsplit =>
      simp only at heq
      split at heq
      · cases heq
      · next name extent hread =>
        obtain rfl := Except.ok.inj heq
        constructor
        · intro h
          exact ⟨precision, word, rest, name, extent, hsplit, hread, (Option.some.inj h).symm⟩
        · rintro ⟨p, w, r, name', extent', hp, hr, rfl⟩
          rw [hsplit] at hp
          obtain ⟨rfl, hcons⟩ := Prod.mk.inj hp
          obtain ⟨rfl, rfl⟩ := List.cons.inj hcons
          rw [hread] at hr
          obtain ⟨rfl, rfl⟩ := Prod.mk.inj (Except.ok.inj hr)
          rfl

theorem mem_of_mem_bracketed? {text name size : List Char}
    (h : bracketed? text = some (name, size)) : ∀ c ∈ name, c ∈ text := by
  simp only [bracketed?] at h
  split at h
  · cases h
  · obtain ⟨rfl, -⟩ := Prod.mk.inj (Option.some.inj h)
    exact fun c hc => (List.takeWhile_sublist _).subset (Text.mem_of_mem_trim hc)

/-- A name is part of the text behind the type. -/
theorem mem_of_readDeclarator {type : String} {text name : List Char} {extent : Extent}
    (h : readDeclarator type text = .ok (name, extent)) : ∀ c ∈ name, c ∈ text := by
  unfold readDeclarator at h
  split at h
  · split at h
    · cases h
    · next hbracket =>
      split at h
      · cases h
      · obtain ⟨rfl, -⟩ := Prod.mk.inj (Except.ok.inj h)
        exact mem_of_mem_bracketed? hbracket
  · split at h
    · cases h
    · next d tail htake =>
      obtain ⟨rfl, -⟩ := Prod.mk.inj (Except.ok.inj h)
      rw [← htake]
      exact fun c hc => (List.takeWhile_sublist _).subset hc

theorem mem_of_mem_splitPrecision {ws rest : List (List Char)} {precision : Option Precision}
    (h : splitPrecision ws = (precision, rest)) : ∀ w ∈ rest, w ∈ ws := by
  cases ws with
  | nil =>
    obtain ⟨-, rfl⟩ := Prod.mk.inj h
    simp
  | cons w ws =>
    simp only [splitPrecision] at h
    split at h
    · obtain ⟨-, rfl⟩ := Prod.mk.inj h
      exact fun v hv => List.mem_cons_of_mem w hv
    · obtain ⟨-, rfl⟩ := Prod.mk.inj h
      exact fun v hv => hv

theorem noBreak_name_of_read? {line : String} {u : Uniform} (h : read? line = some u) :
    NoBreak u.name := by
  obtain ⟨precision, word, rest, name, extent, hsplit, hread, rfl⟩ := read?_eq_some_iff.1 h
  intro hbreak
  rw [String.toList_ofList] at hbreak
  rcases Text.mem_joinWords (mem_of_readDeclarator hread _ hbreak) with hspace | ⟨w, hw, hc⟩
  · revert hspace
    decide
  · have hword := mem_of_mem_splitPrecision hsplit w (List.mem_cons_of_mem word hw)
    have hblank := Text.not_isBlank_of_mem_words hword _ hc
    revert hblank
    decide

/-! ## Reports -/

theorem read?_of_read {line : String} {reading : Reading} {u : Uniform}
    (h : read line = reading) (hu : reading.result = .ok u) : read? line = some u := by
  rw [read?, h, hu]

theorem severity_of_mem_reports {stage : Option Stage} {line : String} {d : Diagnostic}
    (h : d ∈ reports stage line) : d.severity = .error := by
  simp only [reports] at h
  rcases List.mem_append.1 h with h | h
  · split at h
    · rw [List.mem_singleton.1 h]
      rfl
    · cases h
  · split at h
    · rw [List.mem_singleton.1 h]
      rfl
    · cases h

/-- Nothing is reported about a line exactly if it has no comma and declares a uniform. -/
theorem reports_eq_nil_iff {stage : Option Stage} {line : String} :
    reports stage line = [] ↔ ∃ u, read line = ⟨false, .ok u⟩ := by
  rcases hread : read line with ⟨comma, result⟩
  cases comma with
  | true => simp [reports, hread]
  | false => cases result <;> simp [reports, hread]

end Uniform

/-! ## Merging -/

namespace MergedUniforms

theorem find?_name_eq_none_iff {us : List Uniform} {name : String} :
    (us.find? fun u => u.name == name) = none ↔ name ∉ us.map Uniform.name := by
  rw [List.find?_eq_none, List.mem_map]
  simp

theorem add_cases (m : MergedUniforms) (l : StageLine) :
    (Uniform.read? l.line = none ∧
      m.add l = ⟨m.uniforms, m.reports ++ Uniform.reports (some l.stage) l.line⟩) ∨
    (∃ u, Uniform.read? l.line = some u ∧ u.name ∉ m.uniforms.map Uniform.name ∧
      m.add l = ⟨m.uniforms ++ [u], m.reports ++ Uniform.reports (some l.stage) l.line⟩) ∨
    ∃ u, ∃ earlier ∈ m.uniforms, Uniform.read? l.line = some u ∧ earlier.name = u.name ∧
      m.add l = ⟨m.uniforms, m.reports ++ Uniform.reports (some l.stage) l.line ++
        [(Problem.conflictingUniform earlier.line l.line).error (some l.stage)]⟩ := by
  unfold add
  cases hread : Uniform.read? l.line with
  | none => exact Or.inl ⟨rfl, rfl⟩
  | some u =>
    right
    cases hfind : m.uniforms.find? fun earlier => earlier.name == u.name with
    | none => exact Or.inl ⟨u, rfl, find?_name_eq_none_iff.1 hfind, by simp [hfind]⟩
    | some earlier =>
      refine Or.inr ⟨u, earlier, List.mem_of_find?_eq_some hfind, rfl, ?_, by simp [hfind]⟩
      simpa using List.find?_some hfind

/-- A line about which nothing is reported, with a new name, adds its uniform and no report. -/
theorem add_of_read {m : MergedUniforms} {l : StageLine} {u : Uniform}
    (hread : Uniform.read l.line = ⟨false, .ok u⟩) (hfresh : u.name ∉ m.uniforms.map Uniform.name) :
    m.add l = ⟨m.uniforms ++ [u], m.reports⟩ := by
  have hreports : Uniform.reports (some l.stage) l.line = [] := Uniform.reports_eq_nil_iff.2 ⟨u, hread⟩
  unfold add
  rw [hreports, Uniform.read?_of_read hread rfl]
  simp [find?_name_eq_none_iff.2 hfresh]

/-- Names are distinct, and each uniform is what its line declares. -/
structure Sound (m : MergedUniforms) : Prop where
  nodup : (m.uniforms.map Uniform.name).Nodup
  read : ∀ u ∈ m.uniforms, Uniform.read? u.line = some u

theorem line_of_read? {line : String} {u : Uniform} (h : Uniform.read? line = some u) :
    u.line = line := by
  obtain ⟨_, _, _, _, _, -, -, rfl⟩ := Uniform.read?_eq_some_iff.1 h
  rfl

theorem Sound.add {m : MergedUniforms} (h : m.Sound) (l : StageLine) : (m.add l).Sound := by
  rcases add_cases m l with ⟨-, hadd⟩ | ⟨u, hread, hfresh, hadd⟩ | ⟨u, earlier, -, -, -, hadd⟩
  · rw [hadd]
    exact ⟨h.nodup, h.read⟩
  · rw [hadd]
    constructor
    · rw [List.map_append, List.map_singleton]
      refine List.nodup_append.2 ⟨h.nodup, List.nodup_singleton _, ?_⟩
      rintro name hname _ hu rfl
      exact hfresh (List.mem_singleton.1 hu ▸ hname)
    · intro v hv
      rcases List.mem_append.1 hv with hv | hv
      · exact h.read v hv
      · obtain rfl := List.mem_singleton.1 hv
        rw [line_of_read? hread, hread]
  · rw [hadd]
    exact ⟨h.nodup, h.read⟩

theorem Sound.foldl_add {m : MergedUniforms} (h : m.Sound) (ls : List StageLine) :
    (ls.foldl MergedUniforms.add m).Sound := by
  induction ls generalizing m with
  | nil => exact h
  | cons l ls ih => exact ih (h.add l)

theorem sound_ofStages (vertex fragment : List String) : (ofStages vertex fragment).Sound := by
  have hempty : (⟨[], []⟩ : MergedUniforms).Sound := ⟨List.nodup_nil, by simp⟩
  exact hempty.foldl_add _

/-! ## Where uniforms come from -/

theorem mem_of_mem_distinctLines {ls : List StageLine} {l : StageLine} (h : l ∈ distinctLines ls) :
    l ∈ ls := by
  induction ls with
  | nil => exact h
  | cons first ls ih =>
    rcases List.mem_cons.1 h with rfl | h
    · exact List.mem_cons_self
    · exact List.mem_cons_of_mem first (ih (List.mem_filter.1 h).1)

theorem mem_map_distinctLines {ls : List StageLine} {line : String}
    (h : line ∈ ls.map StageLine.line) : line ∈ (distinctLines ls).map StageLine.line := by
  induction ls with
  | nil => exact h
  | cons first ls ih =>
    rw [distinctLines, List.map_cons]
    by_cases hfirst : line = first.line
    · rw [hfirst]
      exact List.mem_cons_self
    · have hrest : line ∈ ls.map StageLine.line := by
        rw [List.map_cons] at h
        exact (List.mem_cons.1 h).resolve_left hfirst
      obtain ⟨l, hl, rfl⟩ := List.mem_map.1 (ih hrest)
      refine List.mem_cons_of_mem _ (List.mem_map_of_mem (List.mem_filter.2 ⟨hl, ?_⟩))
      simpa using hfirst

theorem nodup_map_distinctLines (ls : List StageLine) :
    ((distinctLines ls).map StageLine.line).Nodup := by
  induction ls with
  | nil => exact List.nodup_nil
  | cons first ls ih =>
    rw [distinctLines, List.map_cons, List.nodup_cons]
    constructor
    · intro hmem
      obtain ⟨l, hl, hline⟩ := List.mem_map.1 hmem
      have hne := (List.mem_filter.1 hl).2
      simp [hline] at hne
    · exact ih.sublist (List.filter_sublist.map _)

theorem mem_uniforms_foldl (m : MergedUniforms) (ls : List StageLine) :
    ∀ u ∈ (ls.foldl MergedUniforms.add m).uniforms,
      u ∈ m.uniforms ∨ ∃ l ∈ ls, Uniform.read? l.line = some u := by
  induction ls generalizing m with
  | nil => exact fun u hu => Or.inl hu
  | cons l ls ih =>
    intro u hu
    rcases ih (m.add l) u hu with hu | ⟨other, hother, hread⟩
    · rcases add_cases m l with ⟨-, hadd⟩ | ⟨v, hread, -, hadd⟩ | ⟨v, earlier, -, -, -, hadd⟩
      · exact Or.inl (by rwa [hadd] at hu)
      · rw [hadd] at hu
        rcases List.mem_append.1 hu with hu | hu
        · exact Or.inl hu
        · obtain rfl := List.mem_singleton.1 hu
          exact Or.inr ⟨l, by simp, hread⟩
      · exact Or.inl (by rwa [hadd] at hu)
    · exact Or.inr ⟨other, List.mem_cons_of_mem l hother, hread⟩

theorem line_mem_of_mem_ofStages {vertex fragment : List String} {u : Uniform}
    (h : u ∈ (ofStages vertex fragment).uniforms) : u.line ∈ vertex ++ fragment := by
  rcases mem_uniforms_foldl _ _ u h with hu | ⟨l, hl, hread⟩
  · cases hu
  · rw [line_of_read? hread]
    have hmem := mem_of_mem_distinctLines hl
    simp only [stageLines, List.mem_append, List.mem_map] at hmem ⊢
    rcases hmem with ⟨line, hline, rfl⟩ | ⟨line, hline, rfl⟩
    · exact Or.inl hline
    · exact Or.inr hline

end MergedUniforms

end GlslLayout
