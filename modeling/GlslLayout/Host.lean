import GlslLayout.BindGroup
import GlslLayout.BlockLayout
import GlslLayout.ElementFormat
import GlslLayout.Semantic

/-!
What the host provides to every shader.

* `SetTable`: entries by the index of their set.
* `Host`: uniform blocks and bind groups by set, and stored formats by semantic.
-/

namespace GlslLayout

set_option autoImplicit false

/-! ## Tables by set -/

/-- Entries by the index of their set; a set may have none. -/
abbrev SetTable (α : Type) := List (Option α)

namespace SetTable

variable {α : Type}

def get? (t : SetTable α) (set : Nat) : Option α :=
  (t[set]?).join

/-- Makes an entry, in place of an earlier one. The table grows as far as it has to. -/
def put (t : SetTable α) (set : Nat) (a : α) : SetTable α :=
  (t ++ List.replicate (set + 1 - t.length) none).set set (some a)

/-- The entries with their sets, in the order of the sets. -/
def entries (t : SetTable α) : List (Nat × α) :=
  t.zipIdx.filterMap fun slot => slot.1.map fun a => (slot.2, a)

def values (t : SetTable α) : List α :=
  t.filterMap id

end SetTable

/-! ## The host -/

structure Host where
  blocks : SetTable BlockLayout := []
  groups : SetTable BindGroup := []
  elements : Semantic → Option ElementFormat := fun _ => none

namespace Host

def withBlock (h : Host) (set : Nat) (layout : BlockLayout) : Host :=
  { h with blocks := SetTable.put h.blocks set layout }

def withGroup (h : Host) (set : Nat) (group : BindGroup) : Host :=
  { h with groups := SetTable.put h.groups set group }

def withElement (h : Host) (semantic : Semantic) (element : ElementFormat) : Host :=
  { h with elements := fun s => if s = semantic then some element else h.elements s }

/-- Whether a block of the host has a member with the given name. -/
def providesValue (h : Host) (name : String) : Bool :=
  (SetTable.values h.blocks).any fun layout => layout.hasMember name

/-- Whether a bind group of the host has a texture with the given name. -/
def providesTexture (h : Host) (name : String) : Bool :=
  (SetTable.values h.groups).any fun group => group.hasTexture name

/-- Whether the host provides something in a set. -/
def occupies (h : Host) (set : Nat) : Bool :=
  (SetTable.get? h.blocks set).isSome || (SetTable.get? h.groups set).isSome

/-- The declarations of the uniform blocks, each at the first binding of its set. -/
def blockStatements (h : Host) : List Statement :=
  (SetTable.entries h.blocks).map fun entry => entry.2.statement ⟨entry.1, 0⟩

/-- The declarations of the textures, in the order of the sets. -/
def textureStatements (h : Host) : List Statement :=
  (SetTable.entries h.groups).flatMap fun entry => entry.2.textureStatements entry.1

end Host

end GlslLayout
