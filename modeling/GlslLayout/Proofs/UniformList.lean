import GlslLayout.Proofs.Spelling

/-!
Lines that list several uniforms behind one type.

* `SpelledList`: a declaration and the names, perhaps with brackets, that commas add to it.
* `SpelledUniform.readDeclarator_plain`: a first name without brackets is read only if no bracket
  follows anywhere on the line.
* `SpelledList.read_as_first`: the comma is reported, and the line is read as its first uniform
  unless that one has no brackets and a later one has.
-/

namespace GlslLayout

set_option autoImplicit false

/-! ## Spellings -/

/-- A name that follows a comma. -/
structure SpelledDeclarator where
  lead : Blanks
  name : String
  name_ne : name ≠ ""
  name_chars : Over (fun c => c.isAlphanum = true ∨ c = '_') name
  size : Option SpelledSize
  trail : Blanks

namespace SpelledDeclarator

def text (d : SpelledDeclarator) : String :=
  "," ++ (d.lead.text ++ (d.name ++ ((d.size.map SpelledSize.text).getD "" ++ d.trail.text)))

def texts : List SpelledDeclarator → String
  | [] => ""
  | d :: ds => d.text ++ texts ds

theorem bracket_mem_text_iff (d : SpelledDeclarator) : '[' ∈ d.text.toList ↔ d.size ≠ none := by
  have hblanks : ∀ b : Blanks, '[' ∉ b.text.toList := fun b hb => absurd (b.blank _ hb) (by decide)
  have hname : '[' ∉ d.name.toList := fun h => absurd (d.name_chars _ h) (by decide)
  cases hsize : d.size with
  | none => simp [text, hsize, hblanks, hname]
  | some s => simp [text, hsize, SpelledSize.text]

theorem bracket_mem_texts_iff {ds : List SpelledDeclarator} :
    '[' ∈ (texts ds).toList ↔ ∃ d ∈ ds, d.size ≠ none := by
  induction ds with
  | nil => simp [texts]
  | cons d ds ih =>
    rw [texts, String.toList_append, List.mem_append, bracket_mem_text_iff, ih,
      List.exists_mem_cons_iff]

theorem texts_eq_cons {ds : List SpelledDeclarator} (h : ds ≠ []) :
    ∃ t, (texts ds).toList = ',' :: t := by
  obtain ⟨d, others, rfl⟩ := List.exists_cons_of_ne_nil h
  exact ⟨_, by simp only [texts, text, String.toList_append, List.append_assoc]; rfl⟩

end SpelledDeclarator

/-- A line that declares two or more uniforms. -/
structure SpelledList where
  first : SpelledUniform
  others : List SpelledDeclarator
  others_ne : others ≠ []

namespace SpelledList

def line (l : SpelledList) : String :=
  l.first.line ++ SpelledDeclarator.texts l.others

/-- If a later uniform is an array, so is the first. -/
def BracketsFirst (l : SpelledList) : Prop :=
  l.first.size = none → ∀ d ∈ l.others, d.size = none

theorem not_bracketsFirst_iff {l : SpelledList} :
    ¬ l.BracketsFirst ↔
      l.first.size = none ∧ '[' ∈ (SpelledDeclarator.texts l.others).toList := by
  rw [SpelledDeclarator.bracket_mem_texts_iff]
  simp [BracketsFirst]

end SpelledList

/-! ## A first name without brackets -/

namespace Uniform

variable {name gap rest : List Char}

/-- A comma is not part of the name of an array. -/
theorem bracketed?_of_comma (hname : ∀ c ∈ name, isArrayNameChar c = true)
    (hgap : ∀ c ∈ gap, c = ' ') : bracketed? (name ++ (gap ++ ',' :: rest)) = none := by
  have hbefore : ∀ c ∈ name ++ (gap ++ [',']), (c != '[') = true := by
    intro c hc
    rw [bne_iff_ne]
    rintro rfl
    rcases List.mem_append.1 hc with h | h
    · exact absurd (hname _ h) (by decide)
    · rcases List.mem_append.1 h with h | h
      · exact absurd (hgap _ h) (by decide)
      · exact absurd (List.mem_singleton.1 h) (by decide)
  have hcomma : ',' ∈ (name ++ (gap ++ ',' :: rest)).takeWhile (· != '[') := by
    have hsplit : name ++ (gap ++ ',' :: rest) = name ++ (gap ++ [',']) ++ rest := by simp
    rw [hsplit, List.takeWhile_append_of_pos hbefore]
    simp
  have hrefused : (Text.trim ((name ++ (gap ++ ',' :: rest)).takeWhile (· != '['))).all
      isArrayNameChar = false := by
    rw [List.all_eq_false]
    exact ⟨',', Text.mem_trim_of_mem (by decide) hcomma, by decide⟩
  simp only [bracketed?, hrefused]
  simp

/-- A single name ends at the comma. -/
theorem takeWhile_of_comma (hname : ∀ c ∈ name, isArrayNameChar c = true)
    (hgap : ∀ c ∈ gap, c = ' ') :
    (name ++ (gap ++ ',' :: rest)).takeWhile (fun c => c != ' ' && c != ',') = name := by
  apply Text.takeWhile_append_run
  · intro c hc
    rw [Bool.and_eq_true, bne_iff_ne, bne_iff_ne]
    constructor <;> rintro rfl <;> exact absurd (hname _ hc) (by decide)
  · intro c hc
    cases gap with
    | nil =>
      obtain rfl := Option.some.inj hc
      rfl
    | cons g gap =>
      obtain rfl := Option.some.inj hc
      rw [hgap g (by simp)]
      rfl

end Uniform

namespace SpelledUniform

variable (w : SpelledUniform) {tail : String} {t : List Char}

theorem join_of_plain (hsize : w.size = none) (htail : tail.toList = ',' :: t) :
    ∃ gap rest : List Char, (∀ c ∈ gap, c = ' ') ∧
      Text.joinWords (Text.words (w.declarator ++ tail).toList) =
        w.name.toList ++ (gap ++ ',' :: rest) := by
  have htext : (w.declarator ++ tail).toList =
      w.name.toList ++ (w.trail.text.toList ++ ',' :: t) := by
    simp [declarator, sizeText, hsize, htail]
  obtain ⟨gap, hgap, hname⟩ := Text.joinWords_words_gap w.toList_name_ne w.not_isBlank_of_mem_name
    w.trail.blank (s := ',' :: t) ⟨',', rfl, by decide⟩
  obtain ⟨rest, hrest⟩ := Text.joinWords_words_cons (c := ',') (by decide) t
  exact ⟨gap, rest, hgap, by rw [htext, hname, hrest]⟩

theorem bracket_mem_join_iff (hsize : w.size = none) (tail : String) :
    '[' ∈ Text.joinWords (Text.words (w.declarator ++ tail).toList) ↔ '[' ∈ tail.toList := by
  have hname : '[' ∉ w.name.toList := fun h => absurd (w.name_chars _ h) (by decide)
  have htrail : '[' ∉ w.trail.text.toList := fun h => absurd (w.trail.blank _ h) (by decide)
  rw [Text.mem_joinWords_words_iff (by decide)]
  simp [declarator, sizeText, hsize, hname, htrail]

/-- The name ends at the comma. But one bracket further on, and everything up to it is taken for the
name of an array. -/
theorem readDeclarator_plain (hsize : w.size = none) (htail : tail.toList = ',' :: t)
    (type : String) :
    Uniform.readDeclarator type (Text.joinWords (Text.words (w.declarator ++ tail).toList)) =
      if '[' ∈ tail.toList then .error .unreadableArray else .ok (w.name.toList, .single) := by
  obtain ⟨gap, rest, hgap, hjoin⟩ := w.join_of_plain hsize htail
  have hbracket := w.bracket_mem_join_iff hsize tail
  rw [hjoin] at hbracket ⊢
  split
  · next hopen =>
    rw [Uniform.readDeclarator, if_pos (by simpa using hbracket.2 hopen),
      Uniform.bracketed?_of_comma w.isArrayNameChar_of_mem_name hgap]
  · next hopen =>
    rw [Uniform.readDeclarator_eq_ok_iff]
    exact Or.inl ⟨fun h => hopen (hbracket.1 h), w.toList_name_ne,
      (Uniform.takeWhile_of_comma w.isArrayNameChar_of_mem_name hgap).symm, rfl⟩

end SpelledUniform

/-! ## The line -/

namespace SpelledList

variable (l : SpelledList)

theorem contains_comma : (SpelledDeclarator.texts l.others).toList.contains ',' = true := by
  obtain ⟨t, ht⟩ := SpelledDeclarator.texts_eq_cons l.others_ne
  simp [ht]

theorem readDeclarator_of_bracketsFirst {l : SpelledList} (h : l.BracketsFirst) (type : String) :
    Uniform.readDeclarator type
        (Text.joinWords (Text.words (l.first.declarator ++ SpelledDeclarator.texts l.others).toList)) =
      Uniform.readDeclarator type (Text.joinWords (Text.words l.first.declarator.toList)) := by
  rw [l.first.readDeclarator_join]
  cases hsize : l.first.size with
  | none =>
    obtain ⟨t, ht⟩ := SpelledDeclarator.texts_eq_cons l.others_ne
    have hopen : '[' ∉ (SpelledDeclarator.texts l.others).toList := fun hmem =>
      not_bracketsFirst_iff.2 ⟨hsize, hmem⟩ h
    rw [l.first.readDeclarator_plain hsize ht, if_neg hopen]
  | some s => exact l.first.readDeclarator_of_size hsize type _

theorem read_line : Uniform.read l.line = ⟨true,
    (Uniform.readDeclarator l.first.type (Text.joinWords (Text.words
      (l.first.declarator ++ SpelledDeclarator.texts l.others).toList))).map
      fun d => { l.first.uniform d.2 with line := l.line, name := String.ofList d.1 }⟩ := by
  rw [line, l.first.read_append, l.contains_comma]

theorem read_of_bracketsFirst {l : SpelledList} (h : l.BracketsFirst) : Uniform.read l.line = ⟨true,
    (Uniform.read l.first.line).result.map fun u => { u with line := l.line }⟩ := by
  have halone := l.first.read_append ""
  rw [String.append_empty, String.append_empty] at halone
  rw [l.read_line, readDeclarator_of_bracketsFirst h, halone]
  cases Uniform.readDeclarator l.first.type
    (Text.joinWords (Text.words l.first.declarator.toList)) <;> rfl

theorem read_of_not_bracketsFirst {l : SpelledList} (h : ¬ l.BracketsFirst) :
    Uniform.read l.line = ⟨true, .error .unreadableArray⟩ := by
  obtain ⟨hsize, hopen⟩ := not_bracketsFirst_iff.1 h
  obtain ⟨t, ht⟩ := SpelledDeclarator.texts_eq_cons l.others_ne
  rw [l.read_line, l.first.readDeclarator_plain hsize ht, if_pos hopen]
  rfl

/-- A line that lists uniforms is reported for its comma. It is read as the first of them if that
one has brackets or none has; otherwise nothing is read, and the line is reported once more. -/
theorem read_as_first (stage : Option Stage) (h : l.first.Fits) :
    (l.BracketsFirst → ∃ u, Uniform.read? l.first.line = some u ∧
      Uniform.read? l.line = some { u with line := l.line } ∧
      Uniform.reports stage l.line =
        [⟨.error, .multipleUniformsPerLine, stage, (Problem.commaInUniform l.line).message⟩]) ∧
    (¬ l.BracketsFirst → Uniform.read? l.line = none ∧
      Uniform.reports stage l.line =
        [⟨.error, .multipleUniformsPerLine, stage, (Problem.commaInUniform l.line).message⟩,
          ⟨.error, .malformedDeclaration, stage, (Problem.unreadableArray l.line).message⟩]) := by
  constructor
  · intro hfirst
    obtain ⟨extent, hline, -, -⟩ := SpelledUniform.result_of_fits h
    have hread := read_of_bracketsFirst hfirst
    rw [hline] at hread
    refine ⟨l.first.uniform extent, Uniform.read?_of_read hline rfl,
      Uniform.read?_of_read hread rfl, ?_⟩
    rw [Uniform.reports, hread]
    rfl
  · intro hfirst
    have hread := read_of_not_bracketsFirst hfirst
    constructor
    · rw [Uniform.read?, hread]
    · rw [Uniform.reports, hread]
      rfl

theorem over_isBlank_empty : Over (Text.isBlank · = true) "" := by decide

theorem over_isBlank_space : Over (Text.isBlank · = true) " " := by decide

/-- Two arrays and a single value behind one type. -/
def mixedWeights : SpelledList where
  first := {
    indent := ⟨"", over_isBlank_empty⟩
    precision := some (.low, ⟨⟨" ", over_isBlank_space⟩, by decide⟩)
    type := "float"
    type_ne := by decide
    type_chars := by decide
    type_plain := by simp
    gap := ⟨⟨" ", over_isBlank_space⟩, by decide⟩
    name := "weights"
    name_ne := by decide
    name_chars := by decide
    size := some ⟨⟨"", over_isBlank_empty⟩, ⟨" ", over_isBlank_space⟩, "3", by decide,
      ⟨"", over_isBlank_empty⟩⟩
    trail := ⟨"\u2003", by decide⟩ }
  others := [
    { lead := ⟨"\r\n", by decide⟩, name := "bias", name_ne := by decide, name_chars := by decide,
      size := none, trail := ⟨"", over_isBlank_empty⟩ },
    { lead := ⟨" ", over_isBlank_space⟩, name := "taps", name_ne := by decide,
      name_chars := by decide,
      size := some ⟨⟨"", over_isBlank_empty⟩, ⟨"", over_isBlank_empty⟩, "4", by decide,
        ⟨"", over_isBlank_empty⟩⟩,
      trail := ⟨"", over_isBlank_empty⟩ }]
  others_ne := List.cons_ne_nil _ _

/-- The same line without the first brackets. -/
def lateWeights : SpelledList :=
  { mixedWeights with first := { mixedWeights.first with size := none } }

theorem read_as_first_mixedWeights :
    mixedWeights.line = "lowp float weights[ 3]\u2003,\r\nbias, taps[4]" ∧
    mixedWeights.first.Fits ∧ mixedWeights.BracketsFirst ∧
    (∃ u, Uniform.read? mixedWeights.line = some u ∧ u.precision = some .low ∧ u.type = "float" ∧
      u.name = "weights" ∧ u.extent.count = 3) ∧
    lateWeights.line = "lowp float weights\u2003,\r\nbias, taps[4]" ∧ lateWeights.first.Fits ∧
    ¬ lateWeights.BracketsFirst ∧ Uniform.read? lateWeights.line = none ∧
    (Uniform.reports none lateWeights.line).length = 2 := by
  have hfits : mixedWeights.first.Fits := by
    intro s hs
    obtain rfl := Option.some.inj hs
    decide +kernel
  have hlateFits : lateWeights.first.Fits := by
    intro s hs
    cases hs
  have hfirst : mixedWeights.BracketsFirst := by
    intro hsize
    cases hsize
  have hlate : ¬ lateWeights.BracketsFirst := by
    intro h
    cases h rfl _ (List.mem_cons_of_mem _ List.mem_cons_self)
  obtain ⟨u, halone, hread, -⟩ := (mixedWeights.read_as_first none hfits).1 hfirst
  obtain ⟨hnone, hreports⟩ := (lateWeights.read_as_first none hlateFits).2 hlate
  have hu : Uniform.read? mixedWeights.first.line =
      some (mixedWeights.first.uniform (.array 3 (by decide))) := by decide +kernel
  obtain rfl := Option.some.inj (halone.symm.trans hu)
  exact ⟨by decide +kernel, hfits, hfirst, ⟨_, hread, rfl, rfl, rfl, rfl⟩, by decide +kernel,
    hlateFits, hlate, hnone, by rw [hreports]; rfl⟩

theorem read?_lateBrackets :
    (Uniform.read? "float a").map (fun u => (u.precision, u.type, u.name, u.extent)) =
      some (none, "float", "a", .single) ∧
    Uniform.reports none "float a" = [] ∧ Uniform.read? "float a, b[4]" = none ∧
    Uniform.reports none "float a, b[4]" =
      [(Problem.commaInUniform "float a, b[4]").error none,
        (Problem.unreadableArray "float a, b[4]").error none] := by
  decide +kernel

end SpelledList

end GlslLayout
