/-!
Textures and the sampler types that shader text declares them with.

* `Dimension`: the shape of a texture.
* `SampleType`: what a texture delivers when it is sampled.
* `Sampler`: a combined sampler type, with its spelling.
-/

namespace GlslLayout

set_option autoImplicit false

inductive Dimension where
  | d2
  | d2Array
  | cube
  | d3
  deriving DecidableEq, Repr

namespace Dimension

/-- The dimension of a texture that names none. -/
def default : Dimension := .d2

/-- The ending that the dimension gives to the names of texture and sampler types. -/
def suffix : Dimension → String
  | .d2 => "2D"
  | .d2Array => "2DArray"
  | .cube => "Cube"
  | .d3 => "3D"

/-- The type of a texture that is declared apart from its sampler. -/
def textureType (d : Dimension) : String :=
  "texture" ++ d.suffix

end Dimension

/-- What a texture delivers when it is sampled. -/
inductive SampleType where
  | float
  | unfilterableFloat
  | depth
  | signed
  | unsigned
  deriving DecidableEq, Repr

namespace SampleType

/-- The sample type of a texture that names none. -/
def default : SampleType := .float

/-- The letter in front of a texture type; only textures of integers have one. -/
def letter : SampleType → String
  | .signed => "i"
  | .unsigned => "u"
  | _ => ""

end SampleType

/-! ## Sampler types -/

/-- What a sampler type without comparison delivers. -/
inductive Texel where
  | float
  | signed
  | unsigned
  deriving DecidableEq, Repr

/-- The letter that the texel gives to the name of a sampler type. -/
def Texel.letter : Texel → String
  | .float => ""
  | .signed => "i"
  | .unsigned => "u"

/-- The shapes of textures that can be compared against a depth. -/
inductive ShadowDimension where
  | d2
  | d2Array
  | cube
  deriving DecidableEq, Repr

def ShadowDimension.toDimension : ShadowDimension → Dimension
  | .d2 => .d2
  | .d2Array => .d2Array
  | .cube => .cube

/-- A combined sampler type of shader text. -/
inductive Sampler where
  | plain (texel : Texel) (dimension : Dimension)
  | shadow (dimension : ShadowDimension)
  deriving DecidableEq, Repr

namespace Sampler

def dimension : Sampler → Dimension
  | .plain _ dimension => dimension
  | .shadow dimension => dimension.toDimension

def compares : Sampler → Bool
  | .plain _ _ => false
  | .shadow _ => true

/-- The spelling of the type in shader text. -/
def name : Sampler → String
  | .plain texel dimension => texel.letter ++ "sampler" ++ dimension.suffix
  | .shadow dimension => "sampler" ++ dimension.toDimension.suffix ++ "Shadow"

def all : List Sampler :=
  [Texel.float, .signed, .unsigned].flatMap
      (fun texel => [Dimension.d2, .d2Array, .cube, .d3].map (plain texel)) ++
    [ShadowDimension.d2, .d2Array, .cube].map shadow

def ofName? (text : String) : Option Sampler :=
  all.find? fun sampler => sampler.name == text

theorem ofName?_name (sampler : Sampler) : ofName? sampler.name = some sampler := by
  rcases sampler with ⟨t, d⟩ | d
  · cases t <;> cases d <;> decide
  · cases d <;> decide

theorem ofName?_eq_some_iff {text : String} {sampler : Sampler} :
    ofName? text = some sampler ↔ sampler.name = text := by
  constructor
  · intro h
    simpa using List.find?_some h
  · rintro rfl
    exact ofName?_name sampler

end Sampler

end GlslLayout
