import GlslLayout.Source.Cut

/-!
Shader source read piece by piece.

* `Piece`: a declaration that is cut out, a comment, or a single character.
* `Piece.read?`: the first piece of a text.
* `pieces`: all pieces, read from left to right; `flatMap_toList_pieces` says that nothing is lost.
-/

namespace GlslLayout.Source

set_option autoImplicit false

/-- A piece of shader source. -/
inductive Piece where
  /-- A declaration that is cut out. -/
  | cut (declaration : Cut)
  /-- A comment, which is kept as it is. -/
  | comment (text : List Char)
  /-- Any other character, which is kept too. -/
  | char (c : Char)
  deriving DecidableEq, Repr

/-! ## Statement starts -/

/-- The characters behind which a statement starts. -/
def isBoundary (c : Char) : Bool :=
  c == ';' || c == '\x7b' || c == '\x7d' || c == '\n'

/-- The characters that may stand between the start of a statement and its first word. -/
def isIndent (c : Char) : Bool :=
  isGap c || c == '\r'

namespace Piece

/-- The text of the piece in the source. -/
def toList : Piece → List Char
  | .cut declaration => declaration.toList
  | .comment text => text
  | .char c => [c]

/-- Whether a statement starts behind the piece, given whether one starts in front of it. Behind a
cut one starts. Comments, spaces, tabs and carriage returns change nothing. -/
def startsAfter (atStart : Bool) : Piece → Bool
  | .cut _ => true
  | .comment _ => atStart
  | .char c => isBoundary c || (atStart && isIndent c)

/-! ## Reading -/

/-- The declaration at the start of a text, if a statement starts there. -/
def declaration? (atStart : Bool) (s : List Char) : Option (Cut × List Char) :=
  if atStart then Cut.read? s else none

/-- The first piece of a text and what follows it; `atStart` says whether a statement starts there.
Only the empty text has no first piece. -/
def read? (atStart : Bool) (s : List Char) : Option (Piece × List Char) :=
  match declaration? atStart s with
  | some (found, rest) => some (.cut found, rest)
  | none =>
    match comment? s with
    | some (text, rest) => some (.comment text, rest)
    | none =>
      match s with
      | [] => none
      | c :: rest => some (.char c, rest)

theorem toList_read? {atStart : Bool} {s rest : List Char} {p : Piece}
    (h : read? atStart s = some (p, rest)) : p.toList ++ rest = s := by
  unfold read? at h
  split at h
  · next found tail hcut =>
    obtain ⟨rfl, rfl⟩ := Prod.mk.inj (Option.some.inj h)
    unfold declaration? at hcut
    split at hcut
    · exact Cut.toList_read? hcut
    · simp at hcut
  · split at h
    · next text tail hcomment =>
      obtain ⟨rfl, rfl⟩ := Prod.mk.inj (Option.some.inj h)
      exact append_of_comment? hcomment
    · split at h
      · simp at h
      · obtain ⟨rfl, rfl⟩ := Prod.mk.inj (Option.some.inj h)
        rfl

theorem length_lt_of_read? {atStart : Bool} {s rest : List Char} {p : Piece}
    (h : read? atStart s = some (p, rest)) : rest.length < s.length := by
  unfold read? at h
  split at h
  · next found tail hcut =>
    obtain ⟨rfl, rfl⟩ := Prod.mk.inj (Option.some.inj h)
    unfold declaration? at hcut
    split at hcut
    · exact Cut.length_lt_of_read? hcut
    · simp at hcut
  · split at h
    · next text tail hcomment =>
      obtain ⟨rfl, rfl⟩ := Prod.mk.inj (Option.some.inj h)
      exact length_lt_of_comment? hcomment
    · split at h
      · simp at h
      · obtain ⟨rfl, rfl⟩ := Prod.mk.inj (Option.some.inj h)
        simp

theorem read?_eq_none_iff {atStart : Bool} {s : List Char} : read? atStart s = none ↔ s = [] := by
  constructor
  · intro h
    unfold read? at h
    split at h
    · simp at h
    · split at h
      · simp at h
      · split at h
        · rfl
        · simp at h
  · rintro rfl
    cases atStart <;> rfl

end Piece

/-! ## All pieces -/

/-- The pieces of a text; `atStart` says whether a statement starts at its first character. -/
def piecesFrom (atStart : Bool) (s : List Char) : List Piece :=
  match h : Piece.read? atStart s with
  | none => []
  | some (p, rest) =>
    have := Piece.length_lt_of_read? h
    p :: piecesFrom (p.startsAfter atStart) rest
termination_by s.length

/-- The pieces of a whole source. -/
def pieces (s : List Char) : List Piece :=
  piecesFrom true s

theorem flatMap_toList_piecesFrom (atStart : Bool) (s : List Char) :
    (piecesFrom atStart s).flatMap Piece.toList = s := by
  fun_induction piecesFrom atStart s with
  | case1 atStart s h => exact (Piece.read?_eq_none_iff.1 h).symm
  | case2 atStart s p rest h _ ih => rw [List.flatMap_cons, ih, Piece.toList_read? h]

theorem flatMap_toList_pieces (s : List Char) : (pieces s).flatMap Piece.toList = s :=
  flatMap_toList_piecesFrom true s

end GlslLayout.Source
