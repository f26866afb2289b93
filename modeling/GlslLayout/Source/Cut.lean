/-!
A declaration cut out of shader source.

* `Qualifier`: the four words that open a declaration of the old interface style.
* `Cut`: the parts of a declaration that is cut out, from the gap in front of it to its semicolons.
* `Cut.read?`: reads a declaration at the start of a text.
* `comment?`: reads a comment at the start of a text.
-/

namespace GlslLayout.Source

set_option autoImplicit false

/-! ## Characters -/

/-- The characters that separate the parts of a declaration: space and tab. -/
def isGap (c : Char) : Bool :=
  c == ' ' || c == '\t'

/-- The characters of words: letters and digits of ASCII, and the underscore. -/
def isWordChar (c : Char) : Bool :=
  c.isAlphanum || c == '_'

/-! ## Qualifiers -/

/-- The words that open a declaration of the old interface style. -/
inductive Qualifier where
  | input
  | varying
  | output
  | uniform
  deriving DecidableEq, Repr

namespace Qualifier

/-- The word in shader text. -/
def word : Qualifier → List Char
  | .input => "attribute".toList
  | .varying => "varying".toList
  | .output => "out".toList
  | .uniform => "uniform".toList

def all : List Qualifier := [.input, .varying, .output, .uniform]

/-- The qualifier with the given word. -/
def ofWord? (w : List Char) : Option Qualifier :=
  all.find? fun q => q.word == w

theorem ofWord?_eq_some_iff {w : List Char} {q : Qualifier} : ofWord? w = some q ↔ q.word = w := by
  constructor
  · intro h
    simpa using List.find?_some h
  · rintro rfl
    cases q <;> decide

end Qualifier

/-! ## Declarations -/

/-- A declaration as it stands in the source. -/
structure Cut where
  /-- The gap in front of the qualifier. -/
  lead : List Char
  qualifier : Qualifier
  /-- The gap behind the qualifier. -/
  gap : List Char
  /-- What is declared, up to the first semicolon; never empty. -/
  body : List Char
  /-- The semicolons that follow each other directly; at least one. -/
  stops : List Char
  deriving DecidableEq, Repr

/-- The text that was cut out. -/
def Cut.toList (cut : Cut) : List Char :=
  cut.lead ++ cut.qualifier.word ++ cut.gap ++ cut.body ++ cut.stops

/-- Reads what follows a qualifier: a gap, a body and its semicolons. Nothing is read if the body
is empty or no semicolon follows. -/
def Cut.readBody? (lead : List Char) (qualifier : Qualifier) (s : List Char) :
    Option (Cut × List Char) :=
  let text := s.dropWhile isGap
  let body := text.takeWhile (· != ';')
  let tail := text.dropWhile (· != ';')
  if body.isEmpty || tail.isEmpty then none
  else some (⟨lead, qualifier, s.takeWhile isGap, body, tail.takeWhile (· == ';')⟩,
    tail.dropWhile (· == ';'))

/-- Reads a declaration at the start of a text, and gives what follows it. A gap may stand in front.
The body ends at the first semicolon, also inside a comment. -/
def Cut.read? (s : List Char) : Option (Cut × List Char) :=
  let text := s.dropWhile isGap
  match Qualifier.ofWord? (text.takeWhile isWordChar) with
  | none => none
  | some qualifier =>
    Cut.readBody? (s.takeWhile isGap) qualifier (text.dropWhile isWordChar)

/-! ## Comments -/

/-- Splits a text behind the first closing `*/`; without one the whole text is taken. -/
def splitAtClose : List Char → List Char × List Char
  | '*' :: '/' :: s => (['*', '/'], s)
  | [] => ([], [])
  | c :: s =>
    match splitAtClose s with
    | (inside, rest) => (c :: inside, rest)

/-- Reads a comment at the start of a text, and gives what follows it. A line comment ends in front
of the line break. A block comment that is not closed runs to the end. -/
def comment? : List Char → Option (List Char × List Char)
  | '/' :: '/' :: s => some ('/' :: '/' :: s.takeWhile (· != '\n'), s.dropWhile (· != '\n'))
  | '/' :: '*' :: s =>
    match splitAtClose s with
    | (inside, rest) => some ('/' :: '*' :: inside, rest)
  | _ => none

/-! ## Nothing is lost -/

theorem Cut.toList_readBody? {lead s rest : List Char} {qualifier : Qualifier} {cut : Cut}
    (h : Cut.readBody? lead qualifier s = some (cut, rest)) :
    lead ++ qualifier.word ++ s = cut.toList ++ rest := by
  simp only [Cut.readBody?] at h
  split at h
  · simp at h
  · simp only [Option.some.injEq, Prod.mk.injEq] at h
    obtain ⟨rfl, rfl⟩ := h
    simp [Cut.toList, List.takeWhile_append_dropWhile]

theorem Cut.toList_read? {s rest : List Char} {cut : Cut} (h : Cut.read? s = some (cut, rest)) :
    cut.toList ++ rest = s := by
  simp only [Cut.read?] at h
  split at h
  · simp at h
  · next q hq =>
    rw [← Cut.toList_readBody? h, Qualifier.ofWord?_eq_some_iff.1 hq]
    simp [List.takeWhile_append_dropWhile]

theorem Cut.body_ne_nil {s rest : List Char} {cut : Cut} (h : Cut.read? s = some (cut, rest)) :
    cut.body ≠ [] := by
  simp only [Cut.read?] at h
  split at h
  · simp at h
  · simp only [Cut.readBody?] at h
    split at h
    · simp at h
    · next hne =>
      simp only [Option.some.injEq, Prod.mk.injEq] at h
      obtain ⟨rfl, -⟩ := h
      simp_all

theorem Cut.length_lt_of_read? {s rest : List Char} {cut : Cut}
    (h : Cut.read? s = some (cut, rest)) : rest.length < s.length := by
  have hbody := List.length_pos_iff.2 (Cut.body_ne_nil h)
  rw [← Cut.toList_read? h]
  simp only [Cut.toList, List.length_append]
  omega

theorem splitAtClose_append (s : List Char) : (splitAtClose s).1 ++ (splitAtClose s).2 = s := by
  fun_induction splitAtClose s <;> simp_all

theorem append_of_comment? {s text rest : List Char}
    (h : comment? s = some (text, rest)) : text ++ rest = s := by
  unfold comment? at h
  split at h
  · simp only [Option.some.injEq, Prod.mk.injEq] at h
    obtain ⟨rfl, rfl⟩ := h
    simp [List.takeWhile_append_dropWhile]
  · simp only [Option.some.injEq, Prod.mk.injEq] at h
    obtain ⟨rfl, rfl⟩ := h
    simp [splitAtClose_append]
  · simp at h

theorem ne_nil_of_comment? {s text rest : List Char}
    (h : comment? s = some (text, rest)) : text ≠ [] := by
  unfold comment? at h
  split at h <;> simp_all
  · simp [← h.1]
  · simp [← h.1]

theorem length_lt_of_comment? {s text rest : List Char}
    (h : comment? s = some (text, rest)) : rest.length < s.length := by
  have htext := List.length_pos_iff.2 (ne_nil_of_comment? h)
  rw [← append_of_comment? h, List.length_append]
  omega

end GlslLayout.Source
