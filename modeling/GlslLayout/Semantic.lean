/-!
The meaning of a vertex attribute, which fixes its location.

* `Semantic`: the meanings.
* `Semantic.name`, `Semantic.ofName?`: the engine names.
* `Semantic.location`: the input location.
-/

namespace GlslLayout

set_option autoImplicit false

/-- The meaning of a vertex attribute. -/
inductive Semantic where
  | position
  | normal
  | blendWeight
  | blendIndices
  | color
  | texCoord (channel : Fin 8)
  | tangent
  | generic (index : Fin 16)
  deriving DecidableEq, Repr

namespace Semantic

def name : Semantic → String
  | .position => "POSITION"
  | .normal => "NORMAL"
  | .blendWeight => "BLENDWEIGHT"
  | .blendIndices => "BLENDINDICES"
  | .color => "COLOR"
  | .texCoord channel => "TEXCOORD" ++ toString channel.val
  | .tangent => "TANGENT"
  | .generic index => "ATTR" ++ toString index.val

/-- The input location. Named meanings fill the locations 0 to 13; a generic attribute stands at
its own index, which a named meaning may have too. -/
def location : Semantic → Nat
  | .position => 0
  | .normal => 1
  | .blendWeight => 2
  | .blendIndices => 3
  | .color => 4
  | .texCoord channel => 5 + channel.val
  | .tangent => 13
  | .generic index => index.val

/-- All semantics, the named ones first. -/
def all : List Semantic :=
  [.position, .normal, .blendWeight, .blendIndices, .color] ++
    (List.finRange 8).map texCoord ++ [.tangent] ++ (List.finRange 16).map generic

def ofName? (text : String) : Option Semantic :=
  all.find? fun semantic => semantic.name == text

theorem mem_all (s : Semantic) : s ∈ all := by
  cases s <;> simp [all]

end Semantic

end GlslLayout
