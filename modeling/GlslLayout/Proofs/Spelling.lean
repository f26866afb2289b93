import GlslLayout.Proofs.Redeclaration

/-!
Declarations of uniforms, spelled with any white space that keeps their words apart.

* `SpelledUniform`: the parts of a declaration and the white space around them.
* `SpelledUniform.splitPrecision_append`: the words of the declaration, up to its name.
* `SpelledUniform.readDeclarator_join`: what is read behind the type.
* `SpelledUniform.read_back`: the parts are read back exactly, and a size that does not fit is the
  one thing that is reported.
-/

namespace GlslLayout

set_option autoImplicit false

/-! ## Spellings -/

/-- White space, perhaps none. -/
structure Blanks where
  text : String
  blank : Over (Text.isBlank · = true) text

/-- White space between two words. -/
structure Gap extends Blanks where
  nonempty : text ≠ ""

/-- The brackets of an array with the numeral of its size. -/
structure SpelledSize where
  before : Blanks
  left : Blanks
  digits : String
  numeral : Text.isNumeral digits.toList = true
  right : Blanks

namespace SpelledSize

def text (s : SpelledSize) : String :=
  s.before.text ++ ("[" ++ (s.left.text ++ (s.digits ++ (s.right.text ++ "]"))))

def value (s : SpelledSize) : Nat :=
  Text.numeralValue s.digits.toList

end SpelledSize

/-- A declaration of a uniform as a shader may spell it. -/
structure SpelledUniform where
  indent : Blanks
  precision : Option (Precision × Gap)
  type : String
  type_ne : type ≠ ""
  type_chars : Over (fun c => Text.isBlank c = false ∧ c ≠ ',') type
  /-- A precision in the place of the type would be read as one. -/
  type_plain : precision = none → ∀ p : Precision, p.name ≠ type
  gap : Gap
  name : String
  name_ne : name ≠ ""
  name_chars : Over (fun c => c.isAlphanum = true ∨ c = '_') name
  size : Option SpelledSize
  trail : Blanks

namespace SpelledUniform

variable (w : SpelledUniform)

def precisionText : String :=
  match w.precision with
  | none => ""
  | some (p, gap) => p.name ++ gap.text

def sizeText : String :=
  match w.size with
  | none => ""
  | some s => s.text

/-- The part behind the type. -/
def declarator : String :=
  w.name ++ (w.sizeText ++ w.trail.text)

def line : String :=
  w.indent.text ++ (w.precisionText ++ (w.type ++ (w.gap.text ++ w.declarator)))

/-- The size, and zero without brackets. -/
def count : Nat :=
  (w.size.map SpelledSize.value).getD 0

/-- The distance between elements of the type, and 16 if a block cannot hold it. -/
def stride : Nat :=
  match ValueType.ofName? w.type with
  | some type => type.stride
  | none => 16

/-- The size is positive, and its elements stay in the 32-bit range like itself. -/
def Fits : Prop :=
  ∀ s ∈ w.size, 0 < s.value ∧ s.value ≤ 4294967295 ∧ w.stride * s.value ≤ 4294967295

end SpelledUniform

/-! ## The words of a spelling -/

theorem Blanks.words_append (b : Blanks) (s : String) :
    Text.words (b.text ++ s).toList = Text.words s.toList := by
  rw [String.toList_append, Text.words_blanks_append b.blank]

theorem Gap.words_append (g : Gap) {v s : String} (hne : v ≠ "")
    (hv : Over (Text.isBlank · = false) v) :
    Text.words (v ++ (g.text ++ s)).toList = v.toList :: Text.words s.toList := by
  have hgap : g.text.toList ≠ [] := fun h => g.nonempty (String.toList_eq_nil_iff.1 h)
  have hhead : ∀ c ∈ (g.text ++ s).toList.head?, Text.isBlank c = true := by
    intro c hc
    rw [String.toList_append, List.head?_append_of_ne_nil _ hgap] at hc
    exact g.blank c (List.mem_of_mem_head? hc)
  rw [String.toList_append, Text.words_word_append (by simpa using hne) hv hhead,
    g.toBlanks.words_append]

theorem Precision.name_ne (p : Precision) : p.name ≠ "" := by
  cases p <;> decide

theorem Precision.over_name (p : Precision) :
    Over (fun c => Text.isBlank c = false ∧ c ≠ ',') p.name := by
  cases p <;> decide

namespace SpelledUniform

variable (w : SpelledUniform)

theorem splitPrecision_append (tail : String) :
    Uniform.splitPrecision (Text.words (w.line ++ tail).toList) =
      (w.precision.map Prod.fst, w.type.toList :: Text.words (w.declarator ++ tail).toList) := by
  have htype : Text.words (w.type ++ (w.gap.text ++ (w.declarator ++ tail))).toList =
      w.type.toList :: Text.words (w.declarator ++ tail).toList :=
    w.gap.words_append w.type_ne fun c hc => (w.type_chars c hc).1
  simp only [line, String.append_assoc]
  rw [w.indent.words_append, precisionText]
  cases hprecision : w.precision with
  | none =>
    have hplain : Precision.ofName? w.type = none := by
      rw [Option.eq_none_iff_forall_ne_some]
      intro p hp
      exact w.type_plain hprecision p (Precision.ofName?_eq_some_iff.1 hp)
    rw [String.empty_append, htype]
    simp [Uniform.splitPrecision, hplain]
  | some written =>
    obtain ⟨p, gap⟩ := written
    have hp : Precision.ofName? p.name = some p := Precision.ofName?_eq_some_iff.2 rfl
    simp only [String.append_assoc]
    rw [gap.words_append p.name_ne fun c hc => (p.over_name c hc).1, htype]
    simp [Uniform.splitPrecision, hp]

theorem comma_notMem_line : ',' ∉ w.line.toList := by
  have hblanks : ∀ b : Blanks, Over (· ≠ ',') b.text := by
    intro b c hc hcomma
    have hblank := b.blank c hc
    rw [hcomma] at hblank
    exact absurd hblank (by decide)
  have hprecision : Over (· ≠ ',') w.precisionText := by
    rw [precisionText]
    split
    · decide
    · next p gap _ =>
      exact over_append_iff.2 ⟨fun c hc => (p.over_name c hc).2, hblanks gap.toBlanks⟩
  have hname : Over (· ≠ ',') w.name := by
    rintro c hc rfl
    exact absurd (w.name_chars _ hc) (by decide)
  have hsize : Over (· ≠ ',') w.sizeText := by
    rw [sizeText]
    split
    · decide
    · next s _ =>
      have hdigits : Over (· ≠ ',') s.digits := by
        rintro c hc rfl
        have hnumeral := (Bool.and_eq_true_iff.1 s.numeral).2
        exact absurd (List.all_eq_true.1 hnumeral _ hc) (by decide)
      simp only [SpelledSize.text, over_append_iff]
      exact ⟨hblanks s.before, by decide, hblanks s.left, hdigits, hblanks s.right, by decide⟩
  have hline : Over (· ≠ ',') w.line := by
    simp only [line, declarator, over_append_iff]
    exact ⟨hblanks w.indent, hprecision, fun c hc => (w.type_chars c hc).2, hblanks w.gap.toBlanks,
      hname, hsize, hblanks w.trail⟩
  exact fun hcomma => hline _ hcomma rfl

/-! ## Behind the type -/

theorem isArrayNameChar_of_mem_name : ∀ c ∈ w.name.toList, Uniform.isArrayNameChar c = true := by
  intro c hc
  rcases w.name_chars c hc with h | rfl
  · simp [Uniform.isArrayNameChar, h]
  · decide

theorem not_isBlank_of_mem_name : ∀ c ∈ w.name.toList, Text.isBlank c = false := fun c hc =>
  Uniform.not_isBlank_of_isArrayNameChar (w.isArrayNameChar_of_mem_name c hc)

theorem toList_name_ne : w.name.toList ≠ [] := fun h =>
  w.name_ne (String.toList_eq_nil_iff.1 h)

theorem readDeclarator_name (type : String) :
    Uniform.readDeclarator type w.name.toList = .ok (w.name.toList, .single) := by
  have hchars : ∀ c ∈ w.name.toList, c ≠ '[' ∧ c ≠ ' ' ∧ c ≠ ',' := by
    intro c hc
    have hword := w.isArrayNameChar_of_mem_name c hc
    refine ⟨?_, ?_, ?_⟩ <;> rintro rfl <;> exact absurd hword (by decide)
  rw [Uniform.readDeclarator_eq_ok_iff]
  refine Or.inl ⟨fun h => (hchars _ h).1 rfl, w.toList_name_ne, ?_, rfl⟩
  symm
  rw [List.takeWhile_eq_self_iff]
  intro c hc
  rw [Bool.and_eq_true, bne_iff_ne, bne_iff_ne]
  exact (hchars c hc).2

/-- White space inside the brackets and in front of them may be respaced, but stays white space. -/
theorem join_of_size {s : SpelledSize} (hs : w.size = some s) (tail : String) :
    ∃ before left right rest : List Char, (∀ c ∈ before, c = ' ') ∧ (∀ c ∈ left, c = ' ') ∧
      (∀ c ∈ right, c = ' ') ∧
      Text.joinWords (Text.words (w.declarator ++ tail).toList) =
        w.name.toList ++ (before ++ '[' :: (left ++ (s.digits.toList ++ (right ++ ']' :: rest)))) := by
  obtain ⟨hnonempty, hall⟩ := Bool.and_eq_true_iff.1 s.numeral
  have hdigits : ∀ c ∈ s.digits.toList, Text.isBlank c = false := fun c hc =>
    Uniform.not_isBlank_of_isDigit (List.all_eq_true.1 hall c hc)
  have hne : s.digits.toList ≠ [] := by
    intro hnil
    rw [hnil] at hnonempty
    cases hnonempty
  have hhead : ∀ t, ∃ c ∈ (s.digits.toList ++ t).head?, Text.isBlank c = false := by
    intro t
    obtain ⟨d, ds, hcons⟩ := List.exists_cons_of_ne_nil hne
    rw [hcons]
    exact ⟨d, rfl, hdigits d (by simp [hcons])⟩
  have hopen : ∀ c ∈ ['['], Text.isBlank c = false := by
    intro c hc
    rw [List.mem_singleton.1 hc]
    decide
  -- from the right: the closing bracket, the numeral, the opening bracket, the name
  obtain ⟨rest, hlast⟩ := Text.joinWords_words_cons (c := ']') (by decide)
    (w.trail.text.toList ++ tail.toList)
  obtain ⟨right, hright, hnumeral⟩ := Text.joinWords_words_gap hne hdigits s.right.blank
    (s := ']' :: (w.trail.text.toList ++ tail.toList)) ⟨']', rfl, by decide⟩
  obtain ⟨left, hleft, hbracket⟩ := Text.joinWords_words_gap (List.cons_ne_nil '[' []) hopen
    s.left.blank (hhead (s.right.text.toList ++ ']' :: (w.trail.text.toList ++ tail.toList)))
  obtain ⟨before, hbefore, hname⟩ := Text.joinWords_words_gap w.toList_name_ne
    w.not_isBlank_of_mem_name s.before.blank
    (s := '[' :: (s.left.text.toList ++ (s.digits.toList ++ (s.right.text.toList ++
      ']' :: (w.trail.text.toList ++ tail.toList))))) ⟨'[', rfl, by decide⟩
  refine ⟨before, left, right, rest, hbefore, hleft, hright, ?_⟩
  have htext : (w.declarator ++ tail).toList = w.name.toList ++ (s.before.text.toList ++
      '[' :: (s.left.text.toList ++ (s.digits.toList ++ (s.right.text.toList ++
        ']' :: (w.trail.text.toList ++ tail.toList))))) := by
    simp [declarator, sizeText, hs, SpelledSize.text]
  rw [List.singleton_append, List.singleton_append] at hbracket
  rw [htext, hname, hbracket, hnumeral, hlast]

/-- What follows the closing bracket is not read. -/
theorem readDeclarator_of_size {s : SpelledSize} (hs : w.size = some s) (type tail : String) :
    Uniform.readDeclarator type (Text.joinWords (Text.words (w.declarator ++ tail).toList)) =
      (Uniform.readExtent type s.digits.toList).map fun extent => (w.name.toList, extent) := by
  obtain ⟨before, left, right, rest, hbefore, hleft, hright, hjoin⟩ := w.join_of_size hs tail
  have hdigits := List.all_eq_true.1 (Bool.and_eq_true_iff.1 s.numeral).2
  have hblank : ∀ g : List Char, (∀ c ∈ g, c = ' ') → ∀ c ∈ g, Text.isBlank c = true := by
    intro g hg c hc
    rw [hg c hc]
    decide
  have hparts := Uniform.bracketed?_spaced rest w.toList_name_ne w.isArrayNameChar_of_mem_name
    hdigits (hblank before hbefore) (hblank left hleft) (hblank right hright)
  rw [hjoin, Uniform.readDeclarator, if_pos (by simp), hparts]
  cases hextent : Uniform.readExtent type s.digits.toList <;> simp only [hextent] <;> rfl

theorem readDeclarator_join (type : String) :
    Uniform.readDeclarator type (Text.joinWords (Text.words w.declarator.toList)) =
      match w.size with
      | none => .ok (w.name.toList, .single)
      | some s => (Uniform.readExtent type s.digits.toList).map fun extent =>
        (w.name.toList, extent) := by
  cases hsize : w.size with
  | none =>
    have hwords : Text.words w.declarator.toList = [w.name.toList] := by
      rw [declarator, sizeText, hsize, String.empty_append, String.toList_append,
        Text.words_word_append w.toList_name_ne w.not_isBlank_of_mem_name
          fun c hc => w.trail.blank c (List.mem_of_mem_head? hc), Text.words_blanks w.trail.blank]
    have hjoin : Text.joinWords [w.name.toList] = w.name.toList := by simp [Text.joinWords]
    rw [hwords, hjoin]
    exact w.readDeclarator_name type
  | some s =>
    have hread := w.readDeclarator_of_size hsize type ""
    rwa [String.append_empty] at hread

/-- The uniform that is spelled. -/
def uniform (extent : Extent) : Uniform where
  line := w.line
  precision := w.precision.map Prod.fst
  type := w.type
  name := w.name
  extent
  isSampler := Uniform.typeContains w.type "sampler"
  isSigned := Uniform.typeContains w.type "isampler"
  isUnsigned := Uniform.typeContains w.type "usampler"

theorem read_append (tail : String) :
    Uniform.read (w.line ++ tail) = ⟨tail.toList.contains ',',
      (Uniform.readDeclarator w.type (Text.joinWords (Text.words (w.declarator ++ tail).toList))).map
        fun d => { w.uniform d.2 with line := w.line ++ tail, name := String.ofList d.1 }⟩ := by
  have hcomma : (w.line ++ tail).toList.contains ',' = tail.toList.contains ',' := by
    simp [w.comma_notMem_line]
  rw [Uniform.read, w.splitPrecision_append]
  simp only [String.ofList_toList, hcomma]
  cases Uniform.readDeclarator w.type
    (Text.joinWords (Text.words (w.declarator ++ tail).toList)) <;> rfl

theorem read_line :
    Uniform.read w.line = ⟨false, match w.size with
      | none => .ok (w.uniform .single)
      | some s => (Uniform.readExtent w.type s.digits.toList).map w.uniform⟩ := by
  have hread := w.read_append ""
  rw [String.append_empty, String.append_empty, w.readDeclarator_join] at hread
  rw [hread]
  cases w.size with
  | none => simp [uniform, Except.map]
  | some s =>
    cases hextent : Uniform.readExtent w.type s.digits.toList <;> simp [hextent, Except.map, uniform]

end SpelledUniform

/-! ## Sizes -/

theorem Uniform.kind_of_readExtent {type line : String} {size : List Char} {fault : Uniform.Fault}
    (h : Uniform.readExtent type size = .error fault) :
    (fault.problem line).kind = .invalidArraySize := by
  unfold Uniform.readExtent at h
  split at h
  · obtain rfl := Except.error.inj h
    rfl
  · split at h
    · split at h
      · obtain rfl := Except.error.inj h
        rfl
      · cases h
    · obtain rfl := Except.error.inj h
      rfl

theorem SpelledSize.readExtent_eq_ok_iff {type : String} {s : SpelledSize} {extent : Extent} :
    Uniform.readExtent type s.digits.toList = .ok extent ↔
      ∃ h : 0 < s.value, s.value ≤ maxWord ∧ ValueType.strideOf type * s.value ≤ maxWord ∧
        extent = .array s.value h := by
  rw [Uniform.readExtent_eq_ok_iff, Text.readCount?_of_isNumeral s.numeral]
  simp only [inWord?_eq_some_iff]
  constructor
  · rintro ⟨n, hpos, ⟨rfl, hword⟩, hfits, rfl⟩
    exact ⟨hpos, hword, hfits, rfl⟩
  · rintro ⟨hpos, hword, hfits, rfl⟩
    exact ⟨s.value, hpos, ⟨rfl, hword⟩, hfits, rfl⟩

namespace SpelledUniform

theorem stride_eq (w : SpelledUniform) : w.stride = ValueType.strideOf w.type := by
  unfold stride ValueType.strideOf
  cases ValueType.ofName? w.type <;> rfl

theorem result_of_fits {w : SpelledUniform} (h : w.Fits) :
    ∃ extent : Extent, (Uniform.read w.line) = ⟨false, .ok (w.uniform extent)⟩ ∧
      extent.count = w.count ∧ (extent.count = 0 ↔ w.size = none) := by
  rw [w.read_line]
  cases hsize : w.size with
  | none => exact ⟨.single, rfl, by simp [count, hsize, Extent.count], by simp [Extent.count]⟩
  | some s =>
    obtain ⟨hpos, hword, hfits⟩ := h s hsize
    have hextent : Uniform.readExtent w.type s.digits.toList = .ok (.array s.value hpos) := by
      rw [SpelledSize.readExtent_eq_ok_iff, maxWord_eq, ← w.stride_eq]
      exact ⟨hpos, hword, hfits, rfl⟩
    refine ⟨.array s.value hpos, ?_, ?_, ?_⟩
    · simp [hextent, Except.map]
    · simp [count, hsize, Extent.count]
    · simp only [Extent.count, reduceCtorEq, iff_false]
      omega

theorem result_of_not_fits {w : SpelledUniform} (h : ¬ w.Fits) :
    ∃ fault, Uniform.read w.line = ⟨false, .error fault⟩ ∧
      (fault.problem w.line).kind = .invalidArraySize := by
  rw [w.read_line]
  cases hsize : w.size with
  | none => exact absurd (fun s hs => by rw [hsize] at hs; cases hs) h
  | some s =>
    cases hextent : Uniform.readExtent w.type s.digits.toList with
    | error fault =>
      exact ⟨fault, by simp [hextent, Except.map], Uniform.kind_of_readExtent hextent⟩
    | ok extent =>
      refine absurd (fun t ht => ?_) h
      obtain rfl : t = s := Option.some.inj (ht.symm.trans hsize)
      obtain ⟨hpos, hword, hfits, -⟩ := SpelledSize.readExtent_eq_ok_iff.1 hextent
      rw [maxWord_eq] at hword hfits
      exact ⟨hpos, hword, w.stride_eq ▸ hfits⟩

/-- A spelled declaration is read back part by part and without a report; if its size does not fit,
it is not read, and the size is all that is reported. -/
theorem read_back (w : SpelledUniform) (stage : Option Stage) :
    (w.Fits → ∃ u, Uniform.read? w.line = some u ∧ u.precision = w.precision.map Prod.fst ∧
      u.type = w.type ∧ u.name = w.name ∧ u.extent.count = w.count ∧
      (u.extent.count = 0 ↔ w.size = none) ∧ u.line = w.line ∧
      Uniform.reports stage w.line = []) ∧
    (¬ w.Fits → Uniform.read? w.line = none ∧ ∃ message,
      Uniform.reports stage w.line = [⟨.error, .invalidArraySize, stage, message⟩]) := by
  constructor
  · intro h
    obtain ⟨extent, hread, hcount, hsingle⟩ := result_of_fits h
    exact ⟨w.uniform extent, Uniform.read?_of_read hread rfl, rfl, rfl, rfl, hcount, hsingle, rfl,
      Uniform.reports_eq_nil_iff.2 ⟨_, hread⟩⟩
  · intro h
    obtain ⟨fault, hread, hkind⟩ := result_of_not_fits h
    refine ⟨by rw [Uniform.read?, hread], (fault.problem w.line).message, ?_⟩
    rw [← hkind]
    simp [Uniform.reports, hread, Problem.error, Problem.report]

/-- An array with white space of several kinds and leading zeros in its size. -/
def paddedTints : SpelledUniform where
  indent := ⟨"\t", by decide⟩
  precision := some (.high, ⟨⟨"\u3000 ", by decide⟩, by decide⟩)
  type := "vec4"
  type_ne := by decide
  type_chars := by decide
  type_plain := by simp
  gap := ⟨⟨"\n", by decide⟩, by decide⟩
  name := "tints_0"
  name_ne := by decide
  name_chars := by decide
  size := some ⟨⟨" ", by decide⟩, ⟨"\u00a0", by decide⟩, "008", by decide, ⟨"", by decide⟩⟩
  trail := ⟨"\r", by decide⟩

/-- An array of which one element less would fit. -/
def wideTints : SpelledUniform :=
  { paddedTints with
    size := some ⟨⟨"", by decide⟩, ⟨"", by decide⟩, "268435456", by decide, ⟨"", by decide⟩⟩ }

/-- An array of matrices with the numeral of its size. -/
def bones (digits : String) (numeral : Text.isNumeral digits.toList = true) : SpelledUniform :=
  { paddedTints with
    type := "mat4"
    type_ne := by decide
    type_chars := by decide
    type_plain := by simp [paddedTints]
    name := "bones"
    name_ne := by decide
    name_chars := by decide
    size := some ⟨⟨"", by decide⟩, ⟨"", by decide⟩, digits, numeral, ⟨"", by decide⟩⟩ }

/-- The largest arrays of vectors and of matrices, and those with one element more. -/
theorem read_back_paddedTints :
    paddedTints.line = "\thighp\u3000 vec4\ntints_0 [\u00a0008]\r" ∧ paddedTints.Fits ∧
    (∃ u, Uniform.read? paddedTints.line = some u ∧ u.precision = some .high ∧ u.type = "vec4" ∧
      u.name = "tints_0" ∧ u.extent.count = 8) ∧
    Uniform.reports none paddedTints.line = [] ∧ ¬ wideTints.Fits ∧
    Uniform.read? wideTints.line = none ∧ (Uniform.reports none wideTints.line).length = 1 ∧
    (bones "67108863" (by decide)).stride = 64 ∧ (bones "67108863" (by decide)).Fits ∧
    (∃ u, Uniform.read? (bones "67108863" (by decide)).line = some u ∧ u.type = "mat4" ∧
      u.extent.count = 67108863) ∧
    ¬ (bones "67108864" (by decide)).Fits ∧
    Uniform.read? (bones "67108864" (by decide)).line = none := by
  have hfits : paddedTints.Fits := by
    intro s hs
    obtain rfl := Option.some.inj hs
    decide +kernel
  have hwide : ¬ wideTints.Fits := by
    intro h
    have hproduct := (h _ rfl).2.2
    revert hproduct
    decide +kernel
  have hbones : (bones "67108863" (by decide)).Fits := by
    intro s hs
    obtain rfl := Option.some.inj hs
    decide +kernel
  have hmore : ¬ (bones "67108864" (by decide)).Fits := by
    intro h
    have hproduct := (h _ rfl).2.2
    revert hproduct
    decide +kernel
  obtain ⟨u, hread, hprecision, htype, hname, hcount, -, -, hreports⟩ :=
    (read_back paddedTints none).1 hfits
  obtain ⟨hnone, message, hreport⟩ := (read_back wideTints none).2 hwide
  obtain ⟨v, hreadBones, -, htypeBones, -, hcountBones, -⟩ :=
    (read_back (bones "67108863" (by decide)) none).1 hbones
  have hnoneBones := ((read_back (bones "67108864" (by decide)) none).2 hmore).1
  refine ⟨by decide +kernel, hfits, ⟨u, hread, hprecision, htype, hname, ?_⟩, hreports, hwide,
    hnone, by rw [hreport]; rfl, by decide +kernel, hbones, ⟨v, hreadBones, htypeBones, ?_⟩, hmore,
    hnoneBones⟩
  · rw [hcount]
    decide +kernel
  · rw [hcountBones]
    decide +kernel

end SpelledUniform

end GlslLayout
