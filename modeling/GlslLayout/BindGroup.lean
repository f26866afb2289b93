import GlslLayout.Stage
import GlslLayout.Statement
import GlslLayout.Texture

/-!
Bind groups: the buffers and textures that are bound together.

* `BindGroup`: buffer slots, then textures, each with a sampler.
* `BindGroup.bufferBinding?`, `BindGroup.textureBinding?`: where a named resource stands.
* `BindGroup.textureStatements`: the declarations of the textures.
-/

namespace GlslLayout

set_option autoImplicit false

/-- A uniform buffer in a bind group. -/
structure BufferSlot where
  name : String
  visibility : StageSet
  deriving DecidableEq, Repr

/-- A texture with its sampler in a bind group. -/
structure TextureSlot where
  name : String
  visibility : StageSet
  dimension : Dimension
  sampleType : SampleType
  deriving DecidableEq, Repr

/-- A bind group. Bindings count the buffers first; after them each texture takes one binding for
its view and the next for its sampler. -/
structure BindGroup where
  buffers : List BufferSlot
  textures : List TextureSlot
  deriving DecidableEq, Repr

/-! ## Textures in shader text -/

namespace TextureSlot

/-- The type of the texture without its sampler. -/
def textureType (t : TextureSlot) : String :=
  t.sampleType.letter ++ t.dimension.textureType

/-- The type of the sampler without its texture. -/
def samplerType (t : TextureSlot) : String :=
  match t.sampleType with
  | .depth => "samplerShadow"
  | _ => "sampler"

/-- The combined type under which an array texture is sampled. -/
def arraySamplerType (t : TextureSlot) : String :=
  match t.sampleType with
  | .signed => "isampler2DArray"
  | .unsigned => "usampler2DArray"
  | .depth => "sampler2DArrayShadow"
  | .float | .unfilterableFloat => "sampler2DArray"

/-- The declarations of a texture whose view has the given address. An array texture is declared
under a name of its own, and its plain name stands for the combination with the sampler. -/
def statements (t : TextureSlot) (address : Address) : List Statement :=
  let sampler := Statement.resource ⟨address.set, address.binding + 1⟩ t.samplerType
    (Statement.samplerName t.name)
  match t.dimension with
  | .d2Array =>
    [.resource address t.textureType (Statement.textureName t.name), sampler,
      .combination t.name t.arraySamplerType]
  | _ => [.resource address t.textureType t.name, sampler]

end TextureSlot

namespace BindGroup

def isEmpty (g : BindGroup) : Bool :=
  g.buffers.isEmpty && g.textures.isEmpty

/-- The binding of the view of the texture with the given index. -/
def textureBinding (g : BindGroup) (index : Nat) : Nat :=
  g.buffers.length + 2 * index

def bindingCount (g : BindGroup) : Nat :=
  g.textureBinding g.textures.length

/-- The binding of the first buffer with the given name. -/
def bufferBinding? (g : BindGroup) (name : String) : Option Nat :=
  g.buffers.findIdx? fun b => b.name == name

/-- The binding of the view of the first texture with the given name. -/
def textureBinding? (g : BindGroup) (name : String) : Option Nat :=
  (g.textures.findIdx? fun t => t.name == name).map g.textureBinding

def hasTexture (g : BindGroup) (name : String) : Bool :=
  g.textures.any fun t => t.name == name

/-- The declarations of all textures of the group, bound as the given set. -/
def textureStatements (g : BindGroup) (set : Nat) : List Statement :=
  g.textures.zipIdx.flatMap fun entry => entry.1.statements ⟨set, g.textureBinding entry.2⟩

end BindGroup

end GlslLayout
