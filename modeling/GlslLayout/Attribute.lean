import GlslLayout.Declarator
import GlslLayout.Host
import GlslLayout.Policy
import GlslLayout.Problem
import Std.Data.TreeMap

/-!
Vertex attributes with the locations of their semantics.

* `SemanticMap`: which semantic an attribute name has.
* `MappedAttribute`: a declared attribute with its semantic; `MappedAttribute.placed` and
  `MappedAttribute.statements` are how it is declared.
* `AttributeInterface.ofLines`: binds the attributes of lines, with a table of the newest semantic
  at each location.
-/

namespace GlslLayout

set_option autoImplicit false

/-- Semantics by attribute name. -/
abbrev SemanticMap := Std.TreeMap String Semantic

/-- An attribute as it is declared in generated text. -/
structure PlacedAttribute where
  name : String
  type : String
  semantic : Semantic
  deriving DecidableEq, Repr

/-- The location of the attribute. -/
def PlacedAttribute.location (b : PlacedAttribute) : Nat :=
  b.semantic.location

/-! ## Types of converted attributes -/

/-- The number of components that the last character of a type name says; one if it is no digit. -/
def declaredWidth (type : String) : Nat :=
  match type.toList.getLast? with
  | none => 1
  | some c => if c.isDigit then c.toNat - '0'.toNat else 1

/-- The type of `count` floats, which the shader sees. -/
def seenType (count : Nat) : String :=
  if count = 1 then "float" else "vec" ++ toString count

/-- The type of `count` integers, which are fetched. -/
def fetchedType (signed : Bool) (count : Nat) : String :=
  if count = 1 then if signed then "int" else "uint"
  else (if signed then "ivec" else "uvec") ++ toString count

/-! ## Attributes with a semantic -/

/-- A declared attribute with its semantic. -/
structure MappedAttribute where
  declared : Declarator
  semantic : Semantic
  deriving DecidableEq, Repr

namespace MappedAttribute

/-- The stored format, if the shader has to read integers where it declares floats. -/
def converted? (host : Host) (a : MappedAttribute) : Option ElementFormat :=
  (host.elements a.semantic).filter ElementFormat.needsConversion

/-- How the attribute is declared. One that is converted gets an integer type and a hidden name. -/
def placed (policy : Policy) (host : Host) (a : MappedAttribute) : PlacedAttribute :=
  match a.converted? host with
  | none => ⟨a.declared.name, a.declared.type, a.semantic⟩
  | some element =>
    ⟨policy.hiddenStart ++ a.declared.name,
      fetchedType element.component.isSigned (declaredWidth a.declared.type), a.semantic⟩

/-- The declaration of the attribute, and, if it is converted, a global of the declared name that
holds its value as floats. -/
def statements (policy : Policy) (host : Host) (a : MappedAttribute) : List Statement :=
  let b := a.placed policy host
  let input := Statement.vertexInput b.location b.type b.name
  match a.converted? host with
  | none => [input]
  | some _ =>
    [input, .conversion (seenType (declaredWidth a.declared.type)) a.declared.name b.name]

end MappedAttribute

/-! ## Lines -/

/-- What a line declares. -/
inductive AttributeLine where
  | malformed
  | unmapped (name : String)
  | mapped (a : MappedAttribute)
  deriving DecidableEq, Repr

/-- Reads a line and looks its name up. -/
def AttributeLine.read (semantics : SemanticMap) (line : String) : AttributeLine :=
  match Declarator.read? line with
  | none => .malformed
  | some declared =>
    match semantics[declared.name]? with
    | none => .unmapped declared.name
    | some semantic => .mapped ⟨declared, semantic⟩

/-! ## All attributes of a shader -/

/-- The weight of a collision of locations. -/
def Policy.collisionSeverity (policy : Policy) : Severity :=
  if policy.strictLocations then .error else .warning

/-- The report about an attribute at a location that `previous` took last, if that is another
semantic. -/
def collisionReport (policy : Policy) (previous : Option Semantic) (semantic : Semantic) :
    List Diagnostic :=
  match previous with
  | none => []
  | some previous =>
    if previous = semantic then []
    else [(Problem.locationCollision semantic.location previous semantic).report
      policy.collisionSeverity (some .vertex)]

/-- The attributes of a shader, bound, and the semantic that took each location last. -/
structure AttributeInterface where
  placed : List PlacedAttribute
  used : Std.TreeMap Nat Semantic
  statements : List Statement
  reports : List Diagnostic

namespace AttributeInterface

def empty : AttributeInterface := ⟨[], ∅, [], []⟩

def report (i : AttributeInterface) (d : Diagnostic) : AttributeInterface :=
  { i with reports := i.reports ++ [d] }

/-- Binds an attribute at the location of its semantic, which is the newest there from then on. -/
def bind (policy : Policy) (host : Host) (i : AttributeInterface) (a : MappedAttribute) :
    AttributeInterface where
  placed := i.placed ++ [a.placed policy host]
  used := i.used.insert a.semantic.location a.semantic
  statements := i.statements ++ a.statements policy host
  reports := i.reports ++ collisionReport policy i.used[a.semantic.location]? a.semantic

/-- Reads one more line. An attribute without a semantic is not bound. -/
def add (policy : Policy) (host : Host) (semantics : SemanticMap) (i : AttributeInterface)
    (line : String) : AttributeInterface :=
  match AttributeLine.read semantics line with
  | .malformed => i.report ((Problem.malformedAttribute line).error (some .vertex))
  | .unmapped name => i.report ((Problem.unmappedAttribute name).warning (some .vertex))
  | .mapped a => i.bind policy host a

/-- Binds the attributes of the lines that have a semantic, each at the location of its
semantic. -/
def ofLines (policy : Policy) (host : Host) (semantics : SemanticMap) (lines : List String) :
    AttributeInterface :=
  lines.foldl (add policy host semantics) empty

end AttributeInterface

end GlslLayout
