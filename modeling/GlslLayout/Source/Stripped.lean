import GlslLayout.Source.Segmentation
import GlslLayout.Text.Blank
import GlslLayout.Text.Search

/-!
Shader source without its interface declarations.

* `mark`: the text that shows where generated declarations go.
* `Stripped`: the remaining source and the declarations that were cut out, by qualifier.
* `strip`: cuts the declarations out of a source.
* `Stripped.fill?`: puts generated declarations in place of the mark.
-/

namespace GlslLayout.Source

set_option autoImplicit false

/-- The text that shows where generated declarations go. -/
def mark : String := "@@@"

/-- The mark on a line of its own, as the first cut leaves it. -/
def markLine : List Char :=
  mark.toList ++ ['\n']

/-- The kept text of a source, with the mark where the first cut was. -/
def Segmentation.marked (g : Segmentation) : List Char :=
  match g.cuts with
  | [] => g.head
  | _ :: _ => g.head ++ markLine ++ g.tail

/-- The declarations under a qualifier, without the white space around them. -/
def Segmentation.declarations (g : Segmentation) (qualifier : Qualifier) : List String :=
  (g.bodies qualifier).map fun body => String.ofList (Text.trim body)

/-- A source without its interface declarations. -/
structure Stripped where
  text : String
  attributes : List String
  varyings : List String
  outputs : List String
  uniforms : List String
  deriving DecidableEq, Repr

/-- The stripped form of a divided source. -/
def Segmentation.stripped (g : Segmentation) : Stripped where
  text := String.ofList g.marked
  attributes := g.declarations .input
  varyings := g.declarations .varying
  outputs := g.declarations .output
  uniforms := g.declarations .uniform

/-- Cuts the interface declarations out of a source. -/
def strip (source : String) : Stripped :=
  (segment source.toList).stripped

namespace Stripped

/-- Whether the mark stands in the text. -/
def hasMark (s : Stripped) : Bool :=
  Text.occurs mark.toList s.text.toList

/-- Whether no declaration was cut out. -/
def isEmpty (s : Stripped) : Bool :=
  s.attributes.isEmpty && s.varyings.isEmpty && s.outputs.isEmpty && s.uniforms.isEmpty

/-- The text with `block` in place of the first mark, if there is a mark. -/
def fill? (s : Stripped) (block : String) : Option String :=
  if s.hasMark then
    some (String.ofList (Text.replaceFirst mark.toList block.toList s.text.toList))
  else none

end Stripped

end GlslLayout.Source
