import GlslLayout.Proofs.Source.Passage

/-!
A source is its kept texts and its cut declarations in turn, and every declaration stands at the
start of a statement.

* `Lexeme`, `lexemes`: a text as comments and other characters, from left to right.
* `StartsStatement`: behind the text a statement starts, in terms of its lexemes.
* `LeadsTo.startsStatement`: so it is behind all text in front of a cut.
* `strip_decomposition`: what a stripped source and its lists of declarations are made of.
-/

namespace GlslLayout.Source

set_option autoImplicit false

/-! ## Comments and other characters -/

/-- A part of a text in which only comments are told apart. -/
inductive Lexeme where
  | comment (text : List Char)
  | char (c : Char)
  deriving DecidableEq, Repr

/-- The comments of a text and the characters between them, from left to right. -/
def lexemes (s : List Char) : List Lexeme :=
  match h : comment? s with
  | some (text, rest) =>
    have := length_lt_of_comment? h
    .comment text :: lexemes rest
  | none =>
    match s with
    | [] => []
    | c :: rest => .char c :: lexemes rest
termination_by s.length

theorem lexemes_nil : lexemes [] = [] := by
  rw [lexemes]
  rfl

theorem lexemes_of_comment {s text rest : List Char} (h : comment? s = some (text, rest)) :
    lexemes s = .comment text :: lexemes rest := by
  rw [lexemes]
  split
  · next hsome =>
    rw [hsome] at h
    obtain ⟨rfl, rfl⟩ := Prod.mk.inj (Option.some.inj h)
    rfl
  · next hnone =>
    rw [hnone] at h
    cases h

theorem lexemes_of_char {c : Char} {s : List Char} (h : comment? (c :: s) = none) :
    lexemes (c :: s) = .char c :: lexemes s := by
  rw [lexemes]
  split
  · next hsome =>
    rw [hsome] at h
    cases h
  · rfl

/-! ## Statement starts -/

/-- What may stand between the start of a statement and its first word: spaces, tabs, carriage
returns, and comments that end by themselves. -/
def Lexeme.IsFiller : Lexeme → Prop
  | .comment text => ∀ t, comment? (text ++ t) = some (text, t)
  | .char c => isIndent c = true

/-- A character outside comments behind which a statement starts. -/
def Lexeme.IsBoundary : Lexeme → Prop
  | .comment _ => False
  | .char c => isBoundary c = true

/-- Behind the text a statement starts: it consists of fillers, from its beginning on or behind a
boundary. -/
def StartsStatement (kept : List Char) : Prop :=
  ∃ before fillers, lexemes kept = before ++ fillers ∧ (∀ l ∈ fillers, l.IsFiller) ∧
    ∀ l ∈ before.getLast?, l.IsBoundary

namespace LeadsTo

/-- From a statement start on, only fillers or a boundary lead to the next statement start. -/
theorem lexemes_split {atStart : Bool} {kept tail : List Char} (h : LeadsTo atStart kept tail) :
    ∃ before fillers, lexemes kept = before ++ fillers ∧ (∀ l ∈ fillers, l.IsFiller) ∧
      (∀ l ∈ before.getLast?, l.IsBoundary) ∧ (before = [] → atStart = true) := by
  induction h with
  | cut _ => exact ⟨[], [], lexemes_nil, by simp, by simp, fun _ => rfl⟩
  | @comment atStart text kept tail h next ih =>
    obtain ⟨before, fillers, hsplit, hfill, hlast, hstart⟩ := ih
    have hread : comment? (text ++ kept) = some (text, kept) := by
      simpa using next.comment?_append h []
    have hlex := lexemes_of_comment hread
    cases before with
    | cons l before =>
      refine ⟨.comment text :: l :: before, fillers, by rw [hlex, hsplit]; rfl, hfill, ?_, by simp⟩
      rw [List.getLast?_cons_cons]
      exact hlast
    | nil =>
      refine ⟨[], .comment text :: fillers, by rw [hlex, hsplit]; rfl, ?_, by simp, fun _ => hstart rfl⟩
      intro l hl
      rcases List.mem_cons.1 hl with rfl | hl
      · rcases next.whole_or_break h with hwhole | ⟨⟨more, rfl⟩, -⟩
        · exact hwhole
        · -- a line break is no filler, so the line comment would stand in front of a boundary
          have hbreak : comment? ('\n' :: more) = none := by
            rw [comment?_cons_eq_none_iff]
            exact fun hslash => absurd hslash (by decide)
          rw [lexemes_of_char hbreak, List.nil_append] at hsplit
          have hfiller := hfill (.char '\n') (by rw [← hsplit]; simp)
          have hindent : isIndent '\n' = false := by decide
          rw [Lexeme.IsFiller, hindent] at hfiller
          cases hfiller
      · exact hfill l hl
  | @char atStart c kept tail hcut hcomment next ih =>
    obtain ⟨before, fillers, hsplit, hfill, hlast, hstart⟩ := ih
    have hread : comment? (c :: kept) = none := by
      simpa using comment?_cons_append hcomment next []
    have hlex := lexemes_of_char hread
    cases before with
    | cons l before =>
      refine ⟨.char c :: l :: before, fillers, by rw [hlex, hsplit]; rfl, hfill, ?_, by simp⟩
      rw [List.getLast?_cons_cons]
      exact hlast
    | nil =>
      have hafter : isBoundary c = true ∨ atStart = true ∧ isIndent c = true := by
        simpa [Piece.startsAfter] using hstart rfl
      rcases hafter with hb | ⟨rfl, hindent⟩
      · refine ⟨[.char c], fillers, by rw [hlex, hsplit]; rfl, hfill, ?_, by simp⟩
        intro l hl
        obtain rfl : Lexeme.char c = l := by simpa using hl
        exact hb
      · refine ⟨[], .char c :: fillers, by rw [hlex, hsplit]; rfl, ?_, by simp, fun _ => rfl⟩
        intro l hl
        rcases List.mem_cons.1 hl with rfl | hl
        · exact hindent
        · exact hfill l hl

theorem startsStatement {atStart : Bool} {kept tail : List Char} (h : LeadsTo atStart kept tail) :
    StartsStatement kept := by
  obtain ⟨before, fillers, hsplit, hfill, hlast, -⟩ := h.lexemes_split
  exact ⟨before, fillers, hsplit, hfill, hlast⟩

end LeadsTo

/-! ## The parts of a source -/

theorem segment_wellFormed (s : List Char) :
    ∀ piece ∈ (segment s).cuts, piece.1.WellFormed ∧ piece.2.head? ≠ some ';' := by
  induction s using segment_induction with
  | plain s h =>
    rw [h]
    simp
  | cut kept cut rest _ hread h ih =>
    obtain ⟨-, wf, hrest⟩ := Cut.read?_eq_some_iff.1 hread
    intro piece hpiece
    rw [h] at hpiece
    rcases List.mem_cons.1 hpiece with rfl | hpiece
    · refine ⟨wf, fun hhead => hrest ?_⟩
      rw [← source_segment rest, Segmentation.source, List.head?_append, hhead]
      rfl
    · exact ih piece hpiece

theorem segment_startsStatement (s : List Char) :
    ∀ kept ∈ ((segment s).head :: (segment s).cuts.map Prod.snd).dropLast,
      StartsStatement kept ∧ ∀ c ∈ kept.getLast?, isGap c = false := by
  induction s using segment_induction with
  | plain s h =>
    rw [h]
    simp
  | cut kept cut rest hleads _ h ih =>
    intro text htext
    rw [h] at htext
    simp only [Segmentation.keep, Segmentation.remove, List.append_nil, List.map_cons,
      List.dropLast_cons_cons] at htext
    rcases List.mem_cons.1 htext with rfl | htext
    · exact ⟨hleads.startsStatement, hleads.getLast?_not_isGap⟩
    · exact ih text htext

/-- The declarations under a qualifier among cuts, in order and without white space around them. -/
def declared (cuts : List (Cut × List Char)) (q : Qualifier) : List String :=
  (cuts.filter fun piece => piece.1.qualifier == q).map fun piece =>
    String.ofList (Text.trim piece.1.body)

theorem declarations_eq_declared (g : Segmentation) (q : Qualifier) :
    g.declarations q = declared g.cuts q := by
  simp [Segmentation.declarations, Segmentation.bodies, declared, Function.comp_def]

theorem length_declared (cuts : List (Cut × List Char)) :
    (declared cuts .input).length + (declared cuts .varying).length +
      (declared cuts .output).length + (declared cuts .uniform).length = cuts.length := by
  simp only [declared, List.length_map]
  induction cuts with
  | nil => rfl
  | cons piece cuts ih =>
    simp only [List.filter_cons, List.length_cons]
    cases piece.1.qualifier <;> simp <;> omega

/-- A source is kept texts and cuts in turn. The stripped source is the kept texts, with the mark
where the first cut was; each cut is a declaration at the start of a statement; and the lists of
declarations are the trimmed bodies of the cuts, sorted by qualifier. -/
theorem strip_decomposition (source : String) :
    ∃ (head : List Char) (cuts : List (Cut × List Char)),
      source.toList = head ++ cuts.flatMap (fun piece => piece.1.toList ++ piece.2) ∧
      (strip source).text.toList =
        head ++ (if cuts.isEmpty then [] else "@@@\n".toList) ++ cuts.flatMap Prod.snd ∧
      (∀ piece ∈ cuts, piece.1.WellFormed ∧ piece.2.head? ≠ some ';') ∧
      (∀ kept ∈ (head :: cuts.map Prod.snd).dropLast,
        StartsStatement kept ∧ ∀ c ∈ kept.getLast?, isGap c = false) ∧
      (strip source).attributes = declared cuts .input ∧
      (strip source).varyings = declared cuts .varying ∧
      (strip source).outputs = declared cuts .output ∧
      (strip source).uniforms = declared cuts .uniform ∧
      (strip source).attributes.length + (strip source).varyings.length +
        (strip source).outputs.length + (strip source).uniforms.length = cuts.length := by
  have hdecl : ∀ q, (segment source.toList).declarations q =
      declared (segment source.toList).cuts q := declarations_eq_declared _
  refine ⟨(segment source.toList).head, (segment source.toList).cuts,
    (source_segment source.toList).symm, ?_, segment_wellFormed _, segment_startsStatement _,
    hdecl .input, hdecl .varying, hdecl .output, hdecl .uniform, ?_⟩
  · rw [toList_text_strip, Segmentation.marked]
    cases hcuts : (segment source.toList).cuts with
    | nil => simp
    | cons piece cuts =>
      simp only [List.isEmpty_cons, Segmentation.tail, hcuts]
      rfl
  · rw [← length_declared (segment source.toList).cuts, ← hdecl, ← hdecl, ← hdecl, ← hdecl]
    rfl

end GlslLayout.Source
