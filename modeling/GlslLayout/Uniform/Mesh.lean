import GlslLayout.Failure
import GlslLayout.Host
import GlslLayout.Uniform.Basic

/-!
The uniforms that a shader brings itself: the mesh set.

* `MeshInterface`: the uniform block and the bind group of the mesh set.
* `MeshInterface.ofUniforms`: what the host does not provide becomes part of the mesh set.
* `MeshInterface.statements`: the declarations of all uniforms, those of the host first.
-/

namespace GlslLayout

set_option autoImplicit false

structure MeshInterface where
  block : Option BlockLayout
  group : BindGroup
  deriving DecidableEq, Repr

/-! ## From uniforms to members and textures -/

namespace Uniform

/-- Whether the host provides the uniform. Values and textures are looked up apart. -/
def isProvided (host : Host) (u : Uniform) : Bool :=
  if u.isSampler then host.providesTexture u.name else host.providesValue u.name

/-- The uniform as a member of a block. -/
def toMember (u : Uniform) : Except Failure Member :=
  match ValueType.ofName? u.type with
  | none => .error (.unknownValueType u.type u.line)
  | some type => .ok ⟨u.name, type, u.extent⟩

/-- What the texture delivers, with the given sampler type. Integers come first, then comparison,
then high precision, which cannot be filtered. -/
def delivers (u : Uniform) (sampler : Sampler) : SampleType :=
  if u.isSigned then .signed
  else if u.isUnsigned then .unsigned
  else if sampler.compares then .depth
  else if u.precision = some .high then .unfilterableFloat
  else .float

/-- The uniform as a texture that both stages see. -/
def toTexture (u : Uniform) : Except Failure TextureSlot :=
  match Sampler.ofName? u.type with
  | none => .error (.unknownSampler u.type u.line)
  | some sampler => .ok ⟨u.name, .all, sampler.dimension, u.delivers sampler⟩

end Uniform

/-! ## The mesh set -/

namespace MeshInterface

/-- The name of the one buffer of the mesh set. -/
def bufferName : String := "default"

/-- The values that the host does not provide. -/
def ownValues (host : Host) (uniforms : List Uniform) : List Uniform :=
  uniforms.filter fun u => !u.isSampler && !u.isProvided host

/-- The textures that the host does not provide. -/
def ownTextures (host : Host) (uniforms : List Uniform) : List Uniform :=
  uniforms.filter fun u => u.isSampler && !u.isProvided host

/-- The block of the given members; there is none without members. -/
def blockOf (members : List Member) : Except Failure (Option BlockLayout) :=
  if members.isEmpty then .ok none
  else
    match BlockLayout.place members with
    | .error overflow => .error (.blockOverflow overflow)
    | .ok layout => .ok (some layout)

/-- The buffers of the mesh set: one if there is a block. -/
def buffersOf (block : Option BlockLayout) : List BufferSlot :=
  match block with
  | none => []
  | some _ => [⟨bufferName, .all⟩]

/-- Makes the mesh set of what the host does not provide. The host must leave the set free. Values
are looked at before textures. -/
def ofUniforms (host : Host) (uniforms : List Uniform) : Except Failure MeshInterface :=
  if host.occupies meshSet then .error (.reservedSet meshSet)
  else do
    let members ← (ownValues host uniforms).mapM Uniform.toMember
    let block ← blockOf members
    let textures ← (ownTextures host uniforms).mapM Uniform.toTexture
    return ⟨block, ⟨buffersOf block, textures⟩⟩

/-- The declarations of all uniforms: blocks of the host, the block of the mesh set, textures of the
host, textures of the mesh set. -/
def statements (mesh : MeshInterface) (host : Host) : List Statement :=
  host.blockStatements ++ mesh.block.toList.map (BlockLayout.statement · ⟨meshSet, 0⟩) ++
    host.textureStatements ++ mesh.group.textureStatements meshSet

end MeshInterface

end GlslLayout
