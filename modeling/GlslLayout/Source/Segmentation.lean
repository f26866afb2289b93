import GlslLayout.Source.Piece

/-!
Shader source divided into kept text and cut declarations.

* `Segmentation`: kept text and cuts in turn.
* `segment`: divides a source.
* `Segmentation.source`: the text that was divided; `source_segment` says that nothing is lost.
-/

namespace GlslLayout.Source

set_option autoImplicit false

/-- A source in two kinds of text: kept text, and then cuts, each with the kept text that follows
it. -/
structure Segmentation where
  head : List Char
  cuts : List (Cut × List Char)
  deriving DecidableEq, Repr

namespace Segmentation

/-- Puts kept text in front. -/
def keep (text : List Char) (g : Segmentation) : Segmentation :=
  ⟨text ++ g.head, g.cuts⟩

/-- Puts a cut in front. -/
def remove (cut : Cut) (g : Segmentation) : Segmentation :=
  ⟨[], (cut, g.head) :: g.cuts⟩

/-- Joins the kept pieces between cuts. -/
def ofPieces : List Piece → Segmentation
  | [] => ⟨[], []⟩
  | .cut cut :: rest => (ofPieces rest).remove cut
  | .comment text :: rest => (ofPieces rest).keep text
  | .char c :: rest => (ofPieces rest).keep [c]

/-- The divided source. -/
def source (g : Segmentation) : List Char :=
  g.head ++ g.cuts.flatMap fun piece => piece.1.toList ++ piece.2

/-- The kept text behind the first cut. -/
def tail (g : Segmentation) : List Char :=
  g.cuts.flatMap Prod.snd

/-- The declarations under a qualifier, in order. -/
def bodies (g : Segmentation) (qualifier : Qualifier) : List (List Char) :=
  (g.cuts.filter fun piece => piece.1.qualifier == qualifier).map fun piece => piece.1.body

theorem source_keep (text : List Char) (g : Segmentation) :
    (g.keep text).source = text ++ g.source := by
  simp [keep, source]

theorem source_remove (cut : Cut) (g : Segmentation) :
    (g.remove cut).source = cut.toList ++ g.source := by
  simp [remove, source]

theorem source_ofPieces (ps : List Piece) :
    (ofPieces ps).source = ps.flatMap Piece.toList := by
  induction ps with
  | nil => rfl
  | cons p rest ih =>
    rw [List.flatMap_cons, ← ih]
    cases p with
    | cut cut => exact source_remove cut _
    | comment text => exact source_keep text _
    | char c => exact source_keep [c] _

end Segmentation

/-- Divides a source. -/
def segment (s : List Char) : Segmentation :=
  .ofPieces (pieces s)

theorem source_segment (s : List Char) : (segment s).source = s := by
  rw [segment, Segmentation.source_ofPieces, flatMap_toList_pieces]

end GlslLayout.Source
