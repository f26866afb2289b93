import GlslLayout.Proofs.Source.Refill

/-!
Text in which no declaration is found, wherever a statement starts around it.

* `isPlain`: the characters that neither end a statement nor open a comment.
* `Opening`: the start of a statement whose first word is no qualifier.
* `Opening.passes`: such a statement is kept up to the boundary behind it.
* `strip_of_fill?`: a source that is filled with text of this kind has no declaration left.
-/

namespace GlslLayout.Source

set_option autoImplicit false

/-! ## Plain text inside a statement -/

/-- The characters that neither end a statement nor open a comment: all but `;`, braces, line breaks
and slashes. -/
def isPlain (c : Char) : Bool :=
  !isBoundary c && c != '/'

theorem isPlain_of_isWordChar {c : Char} (h : isWordChar c = true) : isPlain c = true := by
  have hb : isBoundary c = false := by
    rw [Bool.eq_false_iff]
    intro hb
    rw [not_isWordChar_of_isBoundary hb] at h
    cases h
  have hslash : c ≠ '/' := by
    rintro rfl
    revert h
    decide
  simp [isPlain, hb, hslash]

theorem segmentFrom_plain_cons {c : Char} (h : isPlain c = true) (t : List Char) :
    segmentFrom false (c :: t) = (segmentFrom false t).keep [c] := by
  have hc : isBoundary c = false ∧ c ≠ '/' := by simpa [isPlain] using h
  have hopen : comment? (c :: t) = none := by
    rw [comment?_cons_eq_none_iff]
    exact fun hslash => absurd hslash hc.2
  have hstart : (Piece.char c).startsAfter false = false := by simp [Piece.startsAfter, hc.1]
  rw [segmentFrom_of_char (by simp) hopen, hstart]

theorem segmentFrom_plain {s : List Char} (h : ∀ c ∈ s, isPlain c = true) (t : List Char) :
    segmentFrom false (s ++ t) = (segmentFrom false t).keep s := by
  induction s with
  | nil => exact (Segmentation.keep_nil _).symm
  | cons c s ih =>
    have hrest := ih fun d hd => h d (List.mem_cons_of_mem c hd)
    rw [List.cons_append, segmentFrom_plain_cons (h c (by simp)), hrest, Segmentation.keep_keep]
    rfl

/-! ## The start of a statement -/

/-- The start of a statement that is no declaration: a gap, a word that is no qualifier, and plain
text behind the word. Without a word no indentation may follow, since a qualifier could still come
behind it. -/
inductive Opening : List Char → Prop where
  | word {word rest : List Char} {stop : Char} (hword : ∀ c ∈ word, isWordChar c = true)
      (hnone : Qualifier.ofWord? word = none) (hstop : isWordChar stop = false)
      (hindent : word = [] → isIndent stop = false) (hplain : ∀ c ∈ stop :: rest, isPlain c = true) :
      Opening (word ++ stop :: rest)
  | gap {c : Char} {s : List Char} (hgap : isGap c = true) (next : Opening s) : Opening (c :: s)

namespace Opening

theorem read?_eq_none {s : List Char} (h : Opening s) (t : List Char) :
    Cut.read? (s ++ t) = none := by
  induction h with
  | @word word rest stop hword hnone hstop hindent _ =>
    have hgap : ∀ x ∈ (word ++ stop :: (rest ++ t)).head?, isGap x = false := by
      intro x hx
      cases word with
      | nil =>
        obtain rfl : stop = x := by simpa using hx
        exact (Bool.or_eq_false_iff.1 (hindent rfl)).1
      | cons c word =>
        obtain rfl : c = x := by simpa using hx
        exact not_isGap_of_isWordChar (hword c (by simp))
    have hend : ∀ x ∈ (stop :: (rest ++ t)).head?, isWordChar x = false := by simpa using hstop
    rw [List.append_assoc, List.cons_append]
    simp only [Cut.read?]
    rw [Text.dropWhile_eq_self_of_head hgap, Text.takeWhile_append_run hword hend, hnone]
  | @gap c s hgap _ ih =>
    rw [← Option.not_isSome_iff_eq_none, List.cons_append, Cut.isSome_read?_cons_gap hgap, ih]
    simp

/-- Behind its first character a statement is settled: the rest of it is plain. -/
theorem word_cases {word rest : List Char} {stop : Char} (hword : ∀ c ∈ word, isWordChar c = true)
    (hindent : word = [] → isIndent stop = false) (hplain : ∀ c ∈ stop :: rest, isPlain c = true) :
    ∃ c more, word ++ stop :: rest = c :: more ∧ isIndent c = false ∧ isPlain c = true ∧
      ∀ d ∈ more, isPlain d = true := by
  cases word with
  | nil =>
    exact ⟨stop, rest, rfl, hindent rfl, hplain stop (by simp),
      fun d hd => hplain d (List.mem_cons_of_mem stop hd)⟩
  | cons c word =>
    have hc := hword c (by simp)
    refine ⟨c, word ++ stop :: rest, rfl, not_isIndent_of_isWordChar hc, isPlain_of_isWordChar hc, ?_⟩
    intro d hd
    rcases List.mem_append.1 hd with hd | hd
    · exact isPlain_of_isWordChar (hword d (List.mem_cons_of_mem c hd))
    · exact hplain d hd

theorem segmentFrom_append {s : List Char} (h : Opening s) (t : List Char) :
    segmentFrom true (s ++ t) = (segmentFrom false t).keep s := by
  have hread := h.read?_eq_none t
  induction h with
  | @word word rest stop hword hnone hstop hindent hplain =>
    obtain ⟨c, more, htext, hc, hplainC, hmore⟩ := word_cases hword hindent hplain
    have hboundary : isBoundary c = false ∧ c ≠ '/' := by simpa [isPlain] using hplainC
    have hopen : comment? (c :: (more ++ t)) = none := by
      rw [comment?_cons_eq_none_iff]
      exact fun hslash => absurd hslash hboundary.2
    have hafter : (Piece.char c).startsAfter true = false := by
      simp [Piece.startsAfter, hboundary.1, hc]
    rw [htext, List.cons_append] at hread ⊢
    rw [segmentFrom_of_char (fun _ => hread) hopen, hafter, segmentFrom_plain hmore,
      Segmentation.keep_keep]
    rfl
  | @gap c s hgap next ih =>
    have hopen : comment? (c :: (s ++ t)) = none := by
      rw [comment?_cons_eq_none_iff]
      rintro rfl
      exact absurd hgap (by decide)
    have hafter : (Piece.char c).startsAfter true = true := by
      simp [Piece.startsAfter, isIndent, hgap]
    rw [List.cons_append] at hread ⊢
    rw [segmentFrom_of_char (fun _ => hread) hopen, hafter, ih (next.read?_eq_none t),
      Segmentation.keep_keep]
    rfl

end Opening

/-! ## Whole statements -/

/-- A statement that is no declaration is kept up to the boundary behind it. -/
theorem Opening.passes {s text : List Char} {stop : Char} (h : Opening s)
    (htext : ∀ c ∈ text, isPlain c = true) (hstop : isBoundary stop = true) :
    Passes true (s ++ text ++ [stop]) := by
  intro t
  have hbreak : segmentFrom false ([stop] ++ t) = (segmentFrom true t).keep [stop] :=
    passes_boundary hstop false t
  rw [List.append_assoc, List.append_assoc, h.segmentFrom_append, segmentFrom_plain htext, hbreak,
    Segmentation.keep_keep, Segmentation.keep_keep, List.append_assoc]

theorem Passes.boundary {atStart : Bool} {s : List Char} {stop : Char} (h : Passes atStart s)
    (hstop : isBoundary stop = true) : Passes atStart (s ++ [stop]) :=
  h.append (passes_boundary hstop true)

/-! ## Filled sources -/

theorem strip_of_segment {source : String} (h : segment source.toList = ⟨source.toList, []⟩) :
    strip source = ⟨source, [], [], [], []⟩ := by
  rw [strip, h]
  simp [Segmentation.stripped, Segmentation.marked, Segmentation.declarations, Segmentation.bodies]

/-- In a source that did not hold the mark, what stands in front of the mark leads to a statement
start, and what stands behind it is a line break and text without declarations. -/
theorem breakOn_marked {s before after : List Char} (hmark : ¬ mark.toList <:+: s)
    (h : Text.breakOn mark.toList (segment s).marked = some (before, after)) :
    Passes true before ∧ ∃ rest, after = '\n' :: rest ∧ segment rest = ⟨rest, []⟩ := by
  rcases segment_cases s with hplain | ⟨kept, cut, rest, -, hleads, -, hsegment⟩
  · rw [hplain] at h
    refine absurd ?_ hmark
    rw [← Text.occurs_iff_infix]
    exact Option.isSome_iff_exists.2 ⟨_, h⟩
  · have hcuts : (segment s).cuts ≠ [] := by
      rw [hsegment]
      exact List.cons_ne_nil _ _
    have hhead : (segment s).head = kept := by simp [hsegment, Segmentation.keep, Segmentation.remove]
    have htail : (segment s).tail = (segment rest).head ++ (segment rest).tail := by
      simp [hsegment, Segmentation.keep, Segmentation.remove, Segmentation.tail]
    rw [breakOn_marked_of_cuts hmark hcuts, hhead, htail] at h
    obtain ⟨rfl, rfl⟩ := Prod.mk.inj (Option.some.inj h)
    exact ⟨hleads.passes, _, rfl, segment_kept rest⟩

/-- A source without the mark, filled with text in which no declaration is found, has no declaration
left. -/
theorem strip_of_fill? {source block filled : String} (hmark : ¬ mark.toList <:+: source.toList)
    (hblock : Passes true block.toList) (h : (strip source).fill? block = some filled) :
    strip filled = ⟨filled, [], [], [], []⟩ := by
  obtain ⟨before, after, hbreak, rfl⟩ := Stripped.fill?_eq_some_iff.1 h
  rw [toList_text_strip] at hbreak
  obtain ⟨hbefore, rest, rfl, hrest⟩ := breakOn_marked hmark hbreak
  have hpass : Passes true (before ++ block.toList ++ ['\n']) :=
    (hbefore.append hblock).boundary (by decide)
  have htext : before ++ block.toList ++ '\n' :: rest =
      before ++ block.toList ++ ['\n'] ++ rest := by simp
  apply strip_of_segment
  rw [String.toList_ofList, htext]
  calc segment (before ++ block.toList ++ ['\n'] ++ rest)
      = (segment rest).keep (before ++ block.toList ++ ['\n']) := hpass rest
    _ = ⟨before ++ block.toList ++ ['\n'] ++ rest, []⟩ := by rw [hrest]; rfl

end GlslLayout.Source
