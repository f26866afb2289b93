import GlslLayout.Shader

/-!
Binding shaders one after another under a growing host.

* `Session`: the host, the policy and the shader bound last.
* `Session.bind`, `Session.rebind?`, `Session.promote?`: the steps that use the last shader.
-/

namespace GlslLayout

set_option autoImplicit false

/-- The state between the steps of a session. -/
structure Session where
  host : Host := {}
  policy : Policy := {}
  last : Option BoundShader := none

namespace Session

/-- Binds a shader. A run that succeeds becomes the last one. -/
def bind (s : Session) (shader : Shader) : Run × Session :=
  let run := shader.bind s.policy s.host
  match run.outcome with
  | .error _ => (run, s)
  | .ok bound => (run, { s with last := some bound })

/-- Binds the sources of the last shader again, under another label and other semantics. -/
def rebind? (s : Session) (label : Option String) (semantics : SemanticMap) :
    Option (Run × Session) :=
  s.last.map fun bound => s.bind ⟨label, bound.vertex, bound.fragment, semantics⟩

/-- Makes the mesh set of the last shader part of the host, in the given set. Without a uniform
block, a block that the host has there stays. -/
def promote? (s : Session) (set : Nat) : Option Session :=
  s.last.map fun bound =>
    let withBlock :=
      match bound.mesh.block with
      | none => s.host
      | some layout => s.host.withBlock set layout
    { s with host := withBlock.withGroup set bound.mesh.group }

end Session

end GlslLayout
