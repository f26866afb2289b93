import GlslLayout.Declarator
import GlslLayout.Problem
import GlslLayout.Statement
import Std.Data.TreeMap

/-!
Varyings: what the vertex stage hands to the fragment stage, and the outputs of the latter.

* `LocationMap`: the location of each varying.
* `VertexVaryings.ofLines`: gives the varyings of the vertex stage locations in order.
* `FragmentVaryings.ofLines`: gives those of the fragment stage the same locations.
* `outputStatements`: the outputs of the fragment stage.
-/

namespace GlslLayout

set_option autoImplicit false

structure PlacedVarying where
  name : String
  type : String
  location : Nat
  deriving DecidableEq, Repr

def PlacedVarying.statement (direction : Direction) (b : PlacedVarying) : Statement :=
  .varying direction b.location b.type b.name

abbrev LocationMap := Std.TreeMap String Nat

/-- Varyings of one stage, the locations by name, and what is reported about the lines. The vertex
stage fills the table, and the fragment stage reads it. -/
structure VaryingInterface where
  placed : List PlacedVarying
  locations : LocationMap
  reports : List Diagnostic

namespace VaryingInterface

def empty (locations : LocationMap) : VaryingInterface := ⟨[], locations, []⟩

def bind (v : VaryingInterface) (b : PlacedVarying) : VaryingInterface :=
  { v with placed := v.placed ++ [b] }

def report (v : VaryingInterface) (d : Diagnostic) : VaryingInterface :=
  { v with reports := v.reports ++ [d] }

end VaryingInterface

/-! ## The vertex stage -/

namespace VertexVaryings

/-- Binds a new name. Its location is the number of names in the table, which then holds it too. -/
def bindNext (v : VaryingInterface) (declared : Declarator) : VaryingInterface :=
  { v.bind ⟨declared.name, declared.type, v.locations.size⟩ with
    locations := v.locations.insert declared.name v.locations.size }

/-- Reads one more line. A new name gets the next location; a name that is declared again keeps the
one it has. -/
def add (v : VaryingInterface) (line : String) : VaryingInterface :=
  match Declarator.read? line with
  | none => v.report ((Problem.malformedVarying line).error (some .vertex))
  | some declared =>
    match v.locations[declared.name]? with
    | some location =>
      v.report ((Problem.repeatedVarying declared.name location).warning (some .vertex))
    | none => bindNext v declared

def ofLines (lines : List String) : VaryingInterface :=
  lines.foldl add (.empty ∅)

def statements (v : VaryingInterface) : List Statement :=
  v.placed.map (PlacedVarying.statement .outgoing)

end VertexVaryings

/-! ## The fragment stage -/

namespace FragmentVaryings

/-- Reads one more line. The varying has to have a location already. -/
def add (v : VaryingInterface) (line : String) : VaryingInterface :=
  match Declarator.read? line with
  | none => v.report ((Problem.malformedVarying line).error (some .fragment))
  | some declared =>
    match v.locations[declared.name]? with
    | none => v.report ((Problem.missingVarying declared.name).error (some .fragment))
    | some location => v.bind ⟨declared.name, declared.type, location⟩

def ofLines (locations : LocationMap) (lines : List String) : VaryingInterface :=
  lines.foldl add (.empty locations)

def statements (v : VaryingInterface) : List Statement :=
  v.placed.map (PlacedVarying.statement .incoming)

end FragmentVaryings

/-! ## Outputs -/

/-- The declarations of the outputs of the fragment stage, at locations in order. -/
def outputStatements (lines : List String) : List Statement :=
  lines.zipIdx.map fun entry => .fragmentOutput entry.2 entry.1

end GlslLayout
