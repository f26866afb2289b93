import GlslLayout.Proofs.Source.Decomposition

/-!
Declarations that are put back at the mark are cut out again.

* `Stripped.fill?_eq_some_iff`: what filling does with the text around the mark.
* `breakOn_marked_of_cuts`: which mark is the first.
* `Stripped.entries`, `Stripped.declarationBlock`: the declarations of a stripped source, written
  one to a line.
* `segment_entries`: how a text is divided that starts with such lines.
* `strip_refill`: stripping a source that was filled with its own declarations.
-/

namespace GlslLayout.Source

set_option autoImplicit false

/-! ## Filling -/

theorem Stripped.fill?_eq_some_iff {s : Stripped} {block filled : String} :
    s.fill? block = some filled ↔
      ∃ before after, Text.breakOn mark.toList s.text.toList = some (before, after) ∧
        filled = String.ofList (before ++ block.toList ++ after) := by
  unfold Stripped.fill? Stripped.hasMark Text.occurs Text.replaceFirst
  cases Text.breakOn mark.toList s.text.toList with
  | none => simp
  | some parts => simp [eq_comm, Prod.ext_iff]

/-- In a source that did not hold the mark, the first mark is the one that the first cut left. -/
theorem breakOn_marked_of_cuts {s : List Char} (hmark : ¬ mark.toList <:+: s)
    (hcuts : (segment s).cuts ≠ []) :
    Text.breakOn mark.toList (segment s).marked =
      some ((segment s).head, '\n' :: (segment s).tail) := by
  rcases segment_cases s with hplain | ⟨kept, cut, rest, hs, hleads, -, hsegment⟩
  · rw [hplain] at hcuts
    exact absurd rfl hcuts
  · have hfresh : ¬ mark.toList <:+: kept := by
      intro hkept
      rw [hs] at hmark
      exact hmark (hkept.trans (List.prefix_append _ _).isInfix)
    have hmarked : (segment s).marked =
        kept ++ (mark.toList ++ '\n' :: ((segment rest).head ++ (segment rest).tail)) := by
      rw [hsegment, Segmentation.marked_keep_remove]
      simp [markLine]
    -- what leads to a cut does not end with a part of the mark
    rw [hmarked, Text.breakOn_append _ hfresh hleads.getLast?_not_mem_mark, hsegment]
    simp [Segmentation.keep, Segmentation.remove, Segmentation.tail]

/-! ## Declarations on lines -/

/-- The declarations with their qualifiers: attributes, varyings, outputs, uniforms. -/
def Stripped.entries (s : Stripped) : List (Qualifier × String) :=
  s.attributes.map (Prod.mk .input) ++ s.varyings.map (Prod.mk .varying) ++
    s.outputs.map (Prod.mk .output) ++ s.uniforms.map (Prod.mk .uniform)

/-- A declaration on a line of its own. -/
def entryLine (e : Qualifier × String) : List Char :=
  e.1.word ++ [' '] ++ e.2.toList ++ [';', '\n']

/-- All declarations, each on a line of its own. -/
def Stripped.declarationBlock (s : Stripped) : String :=
  String.ofList (s.entries.flatMap entryLine)

/-- The cut that such a line becomes. -/
def entryCut (e : Qualifier × String) : Cut :=
  ⟨[], e.1, [' '], e.2.toList, [';']⟩

/-- A declaration that can stand on a line as it is: it is not empty, has no white space around it,
and holds no semicolon. -/
structure IsEntry (body : String) : Prop where
  ne_nil : body.toList ≠ []
  trimmed : Text.trim body.toList = body.toList
  semicolon : ';' ∉ body.toList

theorem isBlank_of_isGap {c : Char} (h : isGap c = true) : Text.isBlank c = true := by
  rcases Bool.or_eq_true_iff.1 h with hc | hc
  · rw [beq_iff_eq.1 hc]
    decide
  · rw [beq_iff_eq.1 hc]
    decide

theorem IsEntry.wellFormed {q : Qualifier} {body : String} (h : IsEntry body) :
    (entryCut (q, body)).WellFormed where
  lead := by simp [entryCut]
  wholeWord := by
    intro c hc
    obtain rfl : ' ' = c := by simpa [entryCut] using hc
    decide
  gap := by
    intro c hc
    obtain rfl : c = ' ' := by simpa [entryCut] using hc
    decide
  body_ne_nil := h.ne_nil
  body_head := by
    intro c hc
    have hblank : Text.isBlank c = false := Text.head?_trim (by rw [h.trimmed]; exact hc)
    rw [Bool.eq_false_iff]
    intro hgap
    rw [isBlank_of_isGap hgap] at hblank
    cases hblank
  body_semicolon := h.semicolon
  stops_ne_nil := by simp [entryCut]
  stops := by simp [entryCut]

theorem segment_entryLine {e : Qualifier × String} (he : IsEntry e.2) (t : List Char) :
    segment (entryLine e ++ t) = ((segment t).keep ['\n']).remove (entryCut e) := by
  have hline : entryLine e ++ t = (entryCut e).toList ++ (['\n'] ++ t) := by
    simp [entryLine, entryCut, Cut.toList]
  have hread : Cut.read? (entryLine e ++ t) = some (entryCut e, ['\n'] ++ t) :=
    Cut.read?_eq_some_iff.2 ⟨hline, he.wellFormed, by simp⟩
  have hbreak : segment (['\n'] ++ t) = (segment t).keep ['\n'] := passes_lineBreak true t
  rw [← hbreak]
  exact segmentFrom_of_cut hread

/-! ## What such lines leave behind -/

/-- Puts the cuts of lines in front, each with the line break that it leaves. -/
def withEntries (es : List (Qualifier × String)) (g : Segmentation) : Segmentation :=
  es.foldr (fun e g => (g.keep ['\n']).remove (entryCut e)) g

theorem segment_entries {es : List (Qualifier × String)} (hes : ∀ e ∈ es, IsEntry e.2)
    (t : List Char) : segment (es.flatMap entryLine ++ t) = withEntries es (segment t) := by
  induction es with
  | nil => rfl
  | cons e es ih =>
    have hrest := ih fun e' he' => hes e' (List.mem_cons_of_mem e he')
    rw [List.flatMap_cons, List.append_assoc, segment_entryLine (hes e (by simp)), hrest]
    rfl

theorem withEntries_kept (es : List (Qualifier × String)) (g : Segmentation) :
    (withEntries es g).head ++ (withEntries es g).tail =
      List.replicate es.length '\n' ++ (g.head ++ g.tail) := by
  induction es with
  | nil => rfl
  | cons e es ih =>
    rw [List.length_cons, List.replicate_succ, List.cons_append, ← ih]
    simp [withEntries, Segmentation.keep, Segmentation.remove, Segmentation.tail]

theorem withEntries_declared {es : List (Qualifier × String)} (hes : ∀ e ∈ es, IsEntry e.2)
    (text : List Char) (q : Qualifier) :
    declared (withEntries es ⟨text, []⟩).cuts q = (es.filter fun e => e.1 == q).map Prod.snd := by
  induction es with
  | nil => rfl
  | cons e es ih =>
    have hrest := ih fun e' he' => hes e' (List.mem_cons_of_mem e he')
    have htrim : String.ofList (Text.trim (entryCut e).body) = e.2 := by
      have h := (hes e (by simp)).trimmed
      rw [entryCut, h, String.ofList_toList]
    have hstep : declared (withEntries (e :: es) ⟨text, []⟩).cuts q =
        (if e.1 == q then [e.2] else []) ++ declared (withEntries es ⟨text, []⟩).cuts q := by
      rw [← htrim]
      simp only [withEntries, List.foldr_cons, Segmentation.remove, Segmentation.keep, declared,
        List.filter_cons]
      cases h : (entryCut e).qualifier == q <;> simp_all [entryCut]
    rw [hstep, hrest, List.filter_cons]
    cases e.1 == q <;> rfl

theorem withEntries_marked {es : List (Qualifier × String)} (hne : es ≠ []) (kept text : List Char) :
    ((withEntries es ⟨text, []⟩).keep kept).marked =
      kept ++ markLine ++ (List.replicate es.length '\n' ++ text) := by
  cases es with
  | nil => exact absurd rfl hne
  | cons e es =>
    have hkept := withEntries_kept es ⟨text, []⟩
    have hfirst : withEntries (e :: es) ⟨text, []⟩ =
        ((withEntries es ⟨text, []⟩).keep ['\n']).remove (entryCut e) := rfl
    rw [hfirst, Segmentation.marked_keep_remove, List.length_cons, List.replicate_succ]
    simpa [Segmentation.keep, Segmentation.tail] using hkept

/-! ## The declarations of a stripped source -/

theorem entries_filter (s : Stripped) :
    (s.entries.filter fun e => e.1 == Qualifier.input).map Prod.snd = s.attributes ∧
      (s.entries.filter fun e => e.1 == Qualifier.varying).map Prod.snd = s.varyings ∧
      (s.entries.filter fun e => e.1 == Qualifier.output).map Prod.snd = s.outputs ∧
      (s.entries.filter fun e => e.1 == Qualifier.uniform).map Prod.snd = s.uniforms := by
  have hsame : ∀ (q : Qualifier) (l : List String),
      (l.map (Prod.mk q)).filter (fun e => e.1 == q) = l.map (Prod.mk q) := by
    intro q l
    rw [List.filter_eq_self]
    simp
  have hother : ∀ (q r : Qualifier) (l : List String), q ≠ r →
      (l.map (Prod.mk q)).filter (fun e => e.1 == r) = [] := by
    intro q r l hqr
    rw [List.filter_eq_nil_iff]
    simp [hqr]
  simp [Stripped.entries, hsame, hother, Function.comp_def]

theorem entries_ne_nil {s : Stripped} (h : s.isEmpty = false) : s.entries ≠ [] := by
  intro hnil
  simp only [Stripped.entries, List.append_eq_nil_iff, List.map_eq_nil_iff] at hnil
  simp [Stripped.isEmpty, hnil] at h

/-- What was cut out of a source is trimmed and holds no semicolon. -/
theorem isEntry_of_mem_entries {source : String} {e : Qualifier × String}
    (he : e ∈ (strip source).entries) (hne : e.2 ≠ "") : IsEntry e.2 := by
  have hmem : ∃ q, e.2 ∈ declared (segment source.toList).cuts q := by
    simp only [Stripped.entries, List.mem_append, List.mem_map] at he
    rcases he with ((⟨b, hb, rfl⟩ | ⟨b, hb, rfl⟩) | ⟨b, hb, rfl⟩) | ⟨b, hb, rfl⟩
    · exact ⟨.input, declarations_eq_declared _ _ ▸ hb⟩
    · exact ⟨.varying, declarations_eq_declared _ _ ▸ hb⟩
    · exact ⟨.output, declarations_eq_declared _ _ ▸ hb⟩
    · exact ⟨.uniform, declarations_eq_declared _ _ ▸ hb⟩
  obtain ⟨q, hq⟩ := hmem
  obtain ⟨piece, hpiece, hbody⟩ := List.mem_map.1 hq
  have htext : e.2.toList = Text.trim piece.1.body := by rw [← hbody, String.toList_ofList]
  have wf := (segment_wellFormed source.toList piece (List.mem_filter.1 hpiece).1).1
  refine ⟨?_, ?_, ?_⟩
  · intro hnil
    exact hne (String.toList_eq_nil_iff.1 hnil)
  · rw [htext, Text.trim_trim]
  · rw [htext]
    exact fun hsemi => wf.body_semicolon (Text.mem_of_mem_trim hsemi)

/-! ## Stripping a refilled source -/

/-- A source without the mark, from which something was cut, is stripped and filled again with its
own declarations. Stripping the result gives the same declarations, and the same text with one line
break more for each declaration and one for the mark's own line. -/
theorem strip_refill {source : String} (hmark : ¬ mark.toList <:+: source.toList)
    (hcut : (strip source).isEmpty = false) (hbodies : ∀ e ∈ (strip source).entries, e.2 ≠ "") :
    ∃ before after : List Char,
      Text.breakOn mark.toList (strip source).text.toList = some (before, '\n' :: after) ∧
      ∃ refilled, (strip source).fill? (strip source).declarationBlock = some refilled ∧
        strip refilled =
          { strip source with
            text := String.ofList (before ++ "@@@\n".toList ++
              List.replicate ((strip source).entries.length + 1) '\n' ++ after) } := by
  rcases segment_cases source.toList with hplain | ⟨kept, cut, rest, hs, hleads, -, hsegment⟩
  · -- without a cut all lists are empty
    rw [strip, hplain] at hcut
    simp [Stripped.isEmpty, Segmentation.stripped, Segmentation.declarations,
      Segmentation.bodies] at hcut
  · let after := (segment rest).head ++ (segment rest).tail
    have htext : (strip source).text.toList = kept ++ (mark.toList ++ '\n' :: after) := by
      rw [toList_text_strip, hsegment, Segmentation.marked_keep_remove]
      simp [markLine, after]
    have hbreak : Text.breakOn mark.toList (strip source).text.toList =
        some (kept, '\n' :: after) := by
      rw [htext]
      refine Text.breakOn_append _ (fun h => hmark ?_) hleads.getLast?_not_mem_mark
      rw [hs]
      exact h.trans (List.prefix_append _ _).isInfix
    have hentries : ∀ e ∈ (strip source).entries, IsEntry e.2 :=
      fun e he => isEntry_of_mem_entries he (hbodies e he)
    have hrest : segment ('\n' :: after) = ⟨'\n' :: after, []⟩ := by
      have hbreak : segment (['\n'] ++ after) = (segment after).keep ['\n'] :=
        passes_lineBreak true after
      rw [segment_kept] at hbreak
      exact hbreak
    have hrefilled : segment (kept ++ ((strip source).entries.flatMap entryLine ++ '\n' :: after)) =
        (withEntries (strip source).entries ⟨'\n' :: after, []⟩).keep kept := by
      rw [← hrest, ← segment_entries hentries]
      exact hleads.passes _
    refine ⟨kept, after, hbreak,
      String.ofList (kept ++ ((strip source).entries.flatMap entryLine ++ '\n' :: after)), ?_, ?_⟩
    · refine Stripped.fill?_eq_some_iff.2 ⟨kept, '\n' :: after, hbreak, ?_⟩
      simp [Stripped.declarationBlock]
    · obtain ⟨hattributes, hvaryings, houtputs, huniforms⟩ := entries_filter (strip source)
      have hdecl := withEntries_declared hentries ('\n' :: after)
      have hmarked := withEntries_marked (entries_ne_nil hcut) kept ('\n' :: after)
      rw [strip, String.toList_ofList, hrefilled, Segmentation.stripped, hmarked]
      simp only [declarations_eq_declared, Segmentation.keep, hdecl, hattributes, hvaryings,
        houtputs, huniforms]
      have hlines : kept ++ markLine ++
          (List.replicate (strip source).entries.length '\n' ++ '\n' :: after) =
          kept ++ "@@@\n".toList ++
            List.replicate ((strip source).entries.length + 1) '\n' ++ after := by
        rw [List.replicate_succ', ← List.append_assoc]
        simp [markLine, mark]
      rw [hlines]

/-- A source with a semicolon in a comment, a run of semicolons and an empty declaration. -/
def commentedSource : String :=
  "#version 450\n uniform /* ; */ float x;\nout\tvec4 c ;;/**/ attribute vec3\np; uniform ;"

theorem strip_refill_commentedSource :
    (¬ mark.toList <:+: commentedSource.toList ∧ (strip commentedSource).isEmpty = false ∧
      ∀ e ∈ (strip commentedSource).entries, e.2 ≠ "") ∧
    ∃ before after : List Char,
      Text.breakOn mark.toList (strip commentedSource).text.toList =
        some (before, '\n' :: after) ∧
      ∃ refilled,
        (strip commentedSource).fill? (strip commentedSource).declarationBlock = some refilled ∧
        strip refilled =
          { strip commentedSource with
            text := String.ofList (before ++ "@@@\n".toList ++
              List.replicate ((strip commentedSource).entries.length + 1) '\n' ++ after) } := by
  have hmark : ¬ mark.toList <:+: commentedSource.toList := by decide +kernel
  have hcut : (strip commentedSource).isEmpty = false := by decide +kernel
  have hbodies : ∀ e ∈ (strip commentedSource).entries, e.2 ≠ "" := by decide +kernel
  exact ⟨⟨hmark, hcut, hbodies⟩, strip_refill hmark hcut hbodies⟩

end GlslLayout.Source
