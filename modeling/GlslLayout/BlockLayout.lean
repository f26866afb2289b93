import GlslLayout.Statement

/-!
The std140 layout of a uniform block.

* `BlockLayout`: members with their offsets, and the size of the block.
* `BlockLayout.place`: lays members out in order, or names the first that leaves the 32-bit range.
* `BlockLayout.statement`: the declaration of the block.
-/

namespace GlslLayout

set_option autoImplicit false

/-- A member with the offset of its first byte. -/
structure PlacedMember extends Member where
  offset : Nat
  deriving DecidableEq, Repr

structure BlockLayout where
  members : List PlacedMember
  byteSize : Nat
  deriving DecidableEq, Repr

/-- A block does not fit into the 32-bit range; `member` is where it leaves it. -/
structure BlockOverflow where
  member : String
  deriving DecidableEq, Repr

namespace Member

/-- The first byte of the member and the byte behind it, when `start` bytes are taken already and
all of it stays in the 32-bit range. -/
def span? (m : Member) (start : Nat) : Option (Nat × Nat) := do
  let offset ← inWord? (alignUp start m.alignment)
  let size ← m.byteSize?
  let stop ← inWord? (offset + size)
  return (offset, stop)

end Member

namespace BlockLayout

/-- Places members one after another from the byte `start` on. The result is the placed members and
the byte behind the last. -/
def placeFrom (start : Nat) : List Member → Except BlockOverflow (List PlacedMember × Nat)
  | [] => .ok ([], start)
  | m :: rest =>
    match m.span? start with
    | none => .error ⟨m.name⟩
    | some (offset, stop) =>
      match placeFrom stop rest with
      | .error overflow => .error overflow
      | .ok (placed, finish) => .ok (⟨m, offset⟩ :: placed, finish)

/-- Lays out members in order. The size is rounded up to the alignment of a block; if that alone
leaves the 32-bit range, the last member is named. -/
def place (members : List Member) : Except BlockOverflow BlockLayout :=
  match placeFrom 0 members with
  | .error overflow => .error overflow
  | .ok (placed, finish) =>
    match inWord? (alignUp finish ValueType.blockAlignment) with
    | none => .error ⟨(members.getLast?.map Member.name).getD ""⟩
    | some size => .ok ⟨placed, size⟩

def member? (layout : BlockLayout) (name : String) : Option PlacedMember :=
  layout.members.find? fun m => m.name == name

def hasMember (layout : BlockLayout) (name : String) : Bool :=
  layout.members.any fun m => m.name == name

def statement (layout : BlockLayout) (address : Address) : Statement :=
  .block address (layout.members.map PlacedMember.toMember)

theorem placeFrom_members {start finish : Nat} {members : List Member}
    {placed : List PlacedMember} (h : placeFrom start members = .ok (placed, finish)) :
    placed.map PlacedMember.toMember = members := by
  induction members generalizing start placed with
  | nil =>
    simp only [placeFrom, Except.ok.injEq, Prod.mk.injEq] at h
    simp [← h.1]
  | cons m rest ih =>
    rw [placeFrom] at h
    split at h
    · simp at h
    · split at h
      · simp at h
      · next hrest =>
        simp only [Except.ok.injEq, Prod.mk.injEq] at h
        obtain ⟨rfl, rfl⟩ := h
        simp [ih hrest]

end BlockLayout

end GlslLayout
