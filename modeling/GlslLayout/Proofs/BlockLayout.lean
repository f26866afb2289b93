import GlslLayout.BlockLayout
import Mathlib.Data.List.Infix
import Mathlib.Order.Bounds.Defs

/-!
The layout of a block, placed in 32-bit words, against the layout in numbers without a bound.

* `BlockLayout.LaidOut`: members one after another, each at the first byte that its type and extent
  allow.
* `BlockLayout.std140`: the layout in numbers without a bound; `BlockLayout.IsStd140` says what it
  is.
* `BlockLayout.place_eq`: placing gives that layout if its size is a 32-bit word, and else names the
  member where the layout leaves the range.
* `BlockLayout.place_std140`: all of this together, with what it means for the bytes of the members.
-/

namespace GlslLayout

set_option autoImplicit false

/-! ## Alignments -/

theorem isLeast_alignUp {a : Nat} (ha : 0 < a) (n : Nat) :
    IsLeast {k | n ≤ k ∧ a ∣ k} (alignUp n a) := by
  refine ⟨⟨le_alignUp n a, Nat.dvd_of_mod_eq_zero (alignUp_mod ha n)⟩, ?_⟩
  rintro k ⟨hle, hdvd⟩
  by_contra hlt
  -- two multiples of `a` that differ are at least `a` apart
  have hup := Nat.dvd_of_mod_eq_zero (alignUp_mod ha n)
  have hgap := Nat.le_of_dvd (by omega) (Nat.dvd_sub hup hdvd)
  have hnear := alignUp_lt ha n
  omega

theorem alignUp_mono {a n k : Nat} (ha : 0 < a) (h : n ≤ k) : alignUp n a ≤ alignUp k a :=
  (isLeast_alignUp ha n).2
    ⟨h.trans (le_alignUp k a), Nat.dvd_of_mod_eq_zero (alignUp_mod ha k)⟩

theorem ValueType.alignment_pos (type : ValueType) : 0 < type.alignment := by
  unfold ValueType.alignment
  split <;> decide

theorem Member.alignment_pos (m : Member) : 0 < m.alignment := by
  unfold Member.alignment
  split
  · exact m.type.alignment_pos
  · decide

/-! ## Members one after another -/

theorem Member.alignment_eq (m : Member) :
    m.alignment = if m.extent.isArray then 16 else m.type.alignment := by
  unfold Member.alignment
  cases m.extent <;> rfl

theorem Member.byteSize_eq (m : Member) :
    m.byteSize = if m.extent.isArray then m.type.stride * m.extent.count else m.type.size := by
  unfold Member.byteSize
  cases m.extent <;> rfl

namespace PlacedMember

/-- The byte behind the member. An array takes one stride for each element. -/
def stop (m : PlacedMember) : Nat :=
  m.offset + if m.extent.isArray then m.type.stride * m.extent.count else m.type.size

theorem stop_eq (m : PlacedMember) : m.stop = m.offset + m.byteSize := by
  rw [stop, Member.byteSize_eq]

theorem offset_le_stop (m : PlacedMember) : m.offset ≤ m.stop :=
  Nat.le_add_right _ _

end PlacedMember

/-- The three checks on the way to a member's place come down to the last, since neither the offset
nor the size is larger than the byte behind the member. -/
theorem Member.span?_eq (m : Member) (start : Nat) :
    m.span? start =
      if (⟨m, alignUp start m.alignment⟩ : PlacedMember).stop ≤ maxWord then
        some (alignUp start m.alignment, (⟨m, alignUp start m.alignment⟩ : PlacedMember).stop)
      else none := by
  simp only [PlacedMember.stop_eq]
  by_cases h : alignUp start m.alignment + m.byteSize ≤ maxWord
  · have hoffset : alignUp start m.alignment ≤ maxWord := by omega
    have hsize : m.byteSize ≤ maxWord := by omega
    simp [Member.span?, Member.byteSize?, inWord?, h, hoffset, hsize]
  · rw [if_neg h, Option.eq_none_iff_forall_ne_some]
    intro span hspan
    simp only [Member.span?, Member.byteSize?, Option.bind_eq_bind, Option.bind_eq_some_iff,
      inWord?_eq_some_iff] at hspan
    obtain ⟨offset, ⟨rfl, -⟩, size, ⟨rfl, -⟩, stop, ⟨rfl, hstop⟩, -⟩ := hspan
    exact h hstop

namespace BlockLayout

/-- From the byte `start` on, each member is at the least multiple of 16, or of the alignment of its
type if it is no array, that is not below the byte behind the member in front of it. -/
inductive LaidOut : Nat → List PlacedMember → Prop where
  | nil (start : Nat) : LaidOut start []
  | cons {start : Nat} {m : PlacedMember} {rest : List PlacedMember}
      (offset : IsLeast {n | start ≤ n ∧ (if m.extent.isArray then 16 else m.type.alignment) ∣ n}
        m.offset)
      (next : LaidOut m.stop rest) : LaidOut start (m :: rest)

/-- The byte behind the last member, or `start` if there is none. -/
def stopAfter (start : Nat) (placed : List PlacedMember) : Nat :=
  (placed.getLast?.map PlacedMember.stop).getD start

theorem stopAfter_cons (start : Nat) (m : PlacedMember) (rest : List PlacedMember) :
    stopAfter start (m :: rest) = stopAfter m.stop rest := by
  cases rest with
  | nil => rfl
  | cons n rest => simp [stopAfter, List.getLast?_cons]

theorem stopAfter_append (start : Nat) (first more : List PlacedMember) :
    stopAfter start (first ++ more) = stopAfter (stopAfter start first) more := by
  induction first generalizing start with
  | nil => rfl
  | cons m first ih => rw [List.cons_append, stopAfter_cons, stopAfter_cons, ih]

namespace LaidOut

variable {start : Nat} {placed : List PlacedMember}

theorem start_le_offset (h : LaidOut start placed) : ∀ m ∈ placed, start ≤ m.offset := by
  induction h with
  | nil start => simp
  | @cons start m rest offset _ ih =>
    intro n hn
    rcases List.mem_cons.1 hn with rfl | hn
    · exact offset.1.1
    · exact (offset.1.1.trans m.offset_le_stop).trans (ih n hn)

theorem pairwise (h : LaidOut start placed) : placed.Pairwise fun m n => m.stop ≤ n.offset := by
  induction h with
  | nil start => exact .nil
  | cons _ next ih => exact .cons next.start_le_offset ih

theorem start_le_stopAfter (h : LaidOut start placed) : start ≤ stopAfter start placed := by
  induction h with
  | nil start => exact le_refl start
  | @cons start m rest offset _ ih =>
    rw [stopAfter_cons]
    exact (offset.1.1.trans m.offset_le_stop).trans ih

theorem stop_le_stopAfter (h : LaidOut start placed) :
    ∀ m ∈ placed, m.stop ≤ stopAfter start placed := by
  induction h with
  | nil start => simp
  | @cons start m rest _ next ih =>
    intro n hn
    rw [stopAfter_cons]
    rcases List.mem_cons.1 hn with rfl | hn
    · exact next.start_le_stopAfter
    · exact ih n hn

end LaidOut

/-! ## The layout without a bound -/

/-- Places members one after another from the byte `start` on, in numbers without a bound. -/
def std140From (start : Nat) : List Member → List PlacedMember
  | [] => []
  | m :: rest =>
    let placed : PlacedMember := ⟨m, alignUp start m.alignment⟩
    placed :: std140From placed.stop rest

/-- The layout of members in numbers without a bound. -/
def std140 (members : List Member) : BlockLayout where
  members := std140From 0 members
  byteSize := alignUp (stopAfter 0 (std140From 0 members)) ValueType.blockAlignment

theorem laidOut_std140From (start : Nat) (members : List Member) :
    LaidOut start (std140From start members) := by
  induction members generalizing start with
  | nil => exact .nil start
  | cons m rest ih =>
    refine .cons ?_ (ih _)
    rw [← m.alignment_eq]
    exact isLeast_alignUp m.alignment_pos start

theorem map_toMember_std140From (start : Nat) (members : List Member) :
    (std140From start members).map PlacedMember.toMember = members := by
  induction members generalizing start with
  | nil => rfl
  | cons m rest ih => rw [std140From, List.map_cons, ih]

theorem std140From_append (start : Nat) (first more : List Member) :
    std140From start (first ++ more) =
      std140From start first ++ std140From (stopAfter start (std140From start first)) more := by
  induction first generalizing start with
  | nil => rfl
  | cons m first ih =>
    rw [List.cons_append, std140From, std140From, ih, stopAfter_cons, List.cons_append]

theorem stop_le_byteSize_std140 (members : List Member) :
    ∀ m ∈ (std140 members).members, m.stop ≤ (std140 members).byteSize := by
  intro m hm
  exact ((laidOut_std140From 0 members).stop_le_stopAfter m hm).trans (le_alignUp _ _)

theorem byteSize_std140_append (first more : List Member) :
    (std140 first).byteSize ≤ (std140 (first ++ more)).byteSize := by
  have hmore := (laidOut_std140From (stopAfter 0 (std140From 0 first)) more).start_le_stopAfter
  refine alignUp_mono (by decide) ?_
  rw [std140From_append, stopAfter_append]
  exact hmore

/-- What the layout of members is: they are laid out in order from the first byte on, and the size
is the least multiple of 16 that is not below the byte behind the last of them. -/
structure IsStd140 (members : List Member) (layout : BlockLayout) : Prop where
  members : layout.members.map PlacedMember.toMember = members
  offsets : LaidOut 0 layout.members
  byteSize : IsLeast {n | stopAfter 0 layout.members ≤ n ∧ 16 ∣ n} layout.byteSize

theorem isStd140_std140 (members : List Member) : IsStd140 members (std140 members) where
  members := map_toMember_std140From 0 members
  offsets := laidOut_std140From 0 members
  byteSize := isLeast_alignUp (by decide) _

/-! ## Placing in 32-bit words -/

theorem placeFrom_eq (start : Nat) (members : List Member) :
    placeFrom start members =
      match (std140From start members).find? fun m => maxWord < m.stop with
      | some m => .error ⟨m.name⟩
      | none => .ok (std140From start members, stopAfter start (std140From start members)) := by
  induction members generalizing start with
  | nil => rfl
  | cons m rest ih =>
    rw [placeFrom, Member.span?_eq, std140From]
    by_cases h : maxWord < (⟨m, alignUp start m.alignment⟩ : PlacedMember).stop
    · rw [if_neg (by omega), List.find?_cons_of_pos (by simpa using h)]
    · rw [if_pos (by omega), List.find?_cons_of_neg (by simpa using h), stopAfter_cons]
      simp only [ih]
      cases (std140From (⟨m, alignUp start m.alignment⟩ : PlacedMember).stop rest).find?
          fun m => maxWord < m.stop <;> rfl

/-- Where a layout leaves the 32-bit range: at the first member that ends behind it, or at the last
member if all of them end inside. -/
def overflow (layout : BlockLayout) : BlockOverflow :=
  ⟨(((layout.members.find? fun m => maxWord < m.stop).or layout.members.getLast?).map
    fun m => m.name).getD ""⟩

theorem place_eq (members : List Member) :
    place members =
      if (std140 members).byteSize ≤ maxWord then .ok (std140 members)
      else .error (overflow (std140 members)) := by
  rw [place, placeFrom_eq]
  cases hfind : (std140From 0 members).find? fun m => maxWord < m.stop with
  | some m =>
    have hstop : maxWord < m.stop := by simpa using List.find?_some hfind
    have hsize := stop_le_byteSize_std140 members m (List.mem_of_find?_eq_some hfind)
    rw [if_neg (by omega), overflow]
    simp [std140, hfind]
  | none =>
    have hlast : (std140From 0 members).getLast?.map (fun m => m.name) =
        members.getLast?.map Member.name := by
      conv_rhs => rw [← map_toMember_std140From 0 members, List.getLast?_map, Option.map_map]
      rfl
    have hround : alignUp (stopAfter 0 (std140From 0 members)) ValueType.blockAlignment =
        (std140 members).byteSize := rfl
    simp only [inWord?, hround]
    by_cases h : (std140 members).byteSize ≤ maxWord
    · rw [if_pos h, if_pos h]
      rfl
    · rw [if_neg h, if_neg h, overflow]
      simp [std140, hfind, hlast]

theorem place_eq_ok_iff {members : List Member} {layout : BlockLayout} :
    place members = .ok layout ↔ layout = std140 members ∧ (std140 members).byteSize ≤ maxWord := by
  rw [place_eq]
  by_cases h : (std140 members).byteSize ≤ maxWord
  · simp [h, eq_comm]
  · simp [h]

theorem place_eq_error_iff {members : List Member} {overflow : BlockOverflow} :
    place members = .error overflow ↔
      overflow = BlockLayout.overflow (std140 members) ∧ maxWord < (std140 members).byteSize := by
  rw [place_eq]
  by_cases h : (std140 members).byteSize ≤ maxWord
  · simp [h]
  · simp [h, eq_comm, Nat.lt_of_not_le h]

theorem overflow_cases {members : List Member} (h : maxWord < (std140 members).byteSize) :
    (∃ before m after, (std140 members).members = before ++ m :: after ∧
        (∀ b ∈ before, b.stop ≤ maxWord) ∧ maxWord < m.stop ∧
        (overflow (std140 members)).member = m.name) ∨
      (∀ m ∈ (std140 members).members, m.stop ≤ maxWord) ∧
        ∃ last ∈ (std140 members).members.getLast?,
          (overflow (std140 members)).member = last.name := by
  cases hfind : (std140 members).members.find? fun m => maxWord < m.stop with
  | some m =>
    left
    obtain ⟨hstop, before, after, hsplit, hbefore⟩ := List.find?_eq_some_iff_append.1 hfind
    refine ⟨before, m, after, hsplit, ?_, by simpa using hstop, by simp [overflow, hfind]⟩
    exact fun b hb => by simpa using hbefore b hb
  | none =>
    right
    have hinside : ∀ m ∈ (std140 members).members, m.stop ≤ maxWord := by
      simpa using List.find?_eq_none.1 hfind
    refine ⟨hinside, ?_⟩
    cases hlast : (std140 members).members.getLast? with
    | some last => exact ⟨last, rfl, by simp [overflow, hfind, hlast]⟩
    | none =>
      -- a block without members takes no bytes
      have hnone : std140From 0 members = [] := List.getLast?_eq_none_iff.1 hlast
      have hsize : (std140 members).byteSize = 0 := by
        simp only [std140, hnone]
        rfl
      omega

/-- Placing succeeds exactly if the size of the layout without a bound is a 32-bit word. Then it
gives that layout, its members do not overlap, and every start of the list is placed alike.
Otherwise it names the first member that ends behind the range, or the last if only the size is
rounded out of it. -/
theorem place_std140 (members : List Member) :
    IsStd140 members (std140 members) ∧
    ((∃ layout, place members = .ok layout) ↔ (std140 members).byteSize ≤ 4294967295) ∧
    (∀ layout, place members = .ok layout →
      layout = std140 members ∧
      (layout.members.Pairwise fun m n => m.stop ≤ n.offset) ∧
      (∀ m ∈ layout.members, m.stop ≤ layout.byteSize) ∧
      ∀ first, first <+: members →
        ∃ shorter, place first = .ok shorter ∧ shorter.members <+: layout.members) ∧
    (∀ overflow, place members = .error overflow →
      (∃ before m after, (std140 members).members = before ++ m :: after ∧
        (∀ b ∈ before, b.stop ≤ 4294967295) ∧ 4294967295 < m.stop ∧ overflow.member = m.name) ∨
      (∀ m ∈ (std140 members).members, m.stop ≤ 4294967295) ∧
        ∃ last ∈ (std140 members).members.getLast?, overflow.member = last.name) := by
  simp only [← maxWord_eq]
  refine ⟨isStd140_std140 members, ?_, ?_, ?_⟩
  · simp [place_eq_ok_iff]
  · intro layout hlayout
    obtain ⟨rfl, hsize⟩ := place_eq_ok_iff.1 hlayout
    refine ⟨rfl, (laidOut_std140From 0 members).pairwise, stop_le_byteSize_std140 members, ?_⟩
    rintro first ⟨more, rfl⟩
    have hfirst := (byteSize_std140_append first more).trans hsize
    refine ⟨std140 first, place_eq_ok_iff.2 ⟨rfl, hfirst⟩, ?_⟩
    simp [std140, std140From_append]
  · intro overflow hoverflow
    obtain ⟨rfl, hsize⟩ := place_eq_error_iff.1 hoverflow
    exact overflow_cases hsize

/-- Members of every alignment, with a float in the gap behind a vector of three. -/
def mixedMembers : List Member :=
  [⟨"gain", .scalar .float, .single⟩, ⟨"uv", .vector .float .two, .single⟩,
    ⟨"axis", .vector .float .three, .single⟩, ⟨"angle", .scalar .float, .single⟩,
    ⟨"tint", .vector .float .four, .single⟩, ⟨"steps", .scalar .float, .array 3 (Nat.succ_pos 2)⟩,
    ⟨"bias", .scalar .float, .single⟩]

/-- Members that leave 16 bytes of the 32-bit range. -/
def wideMembers : List Member :=
  [⟨"bones", .matrix .four, .array 67108863 (by decide)⟩, ⟨"spin", .matrix .three, .single⟩]

/-- Behind the wide members one more float is rounded out of the range, and a vector of four floats
ends behind it. -/
theorem place_std140_mixedMembers :
    (∃ layout, place mixedMembers = .ok layout ∧ layout.byteSize = 112 ∧
      layout.members.map (fun m => (m.name, m.offset, m.stop)) =
        [("gain", 0, 4), ("uv", 8, 16), ("axis", 16, 28), ("angle", 28, 32), ("tint", 32, 48),
          ("steps", 48, 96), ("bias", 96, 100)] ∧
      (layout.members.Pairwise fun m n => m.stop ≤ n.offset) ∧
      ∃ shorter, place (mixedMembers.take 6) = .ok shorter ∧ shorter.byteSize = 96 ∧
        shorter.members <+: layout.members) ∧
    place wideMembers = .ok (std140 wideMembers) ∧
    (std140 wideMembers).byteSize = 4294967280 ∧
    place (wideMembers ++ [⟨"gain", .scalar .float, .single⟩]) = .error ⟨"gain"⟩ ∧
    place (wideMembers ++ [⟨"tint", .vector .float .four, .single⟩,
      ⟨"gain", .scalar .float, .single⟩]) = .error ⟨"tint"⟩ ∧
    ∃ before m after, (std140 (wideMembers ++ [⟨"tint", .vector .float .four, .single⟩,
        ⟨"gain", .scalar .float, .single⟩])).members = before ++ m :: after ∧
      (∀ b ∈ before, b.stop ≤ 4294967295) ∧ 4294967295 < m.stop ∧ "tint" = m.name := by
  have hmixed : place mixedMembers = .ok (std140 mixedMembers) := rfl
  have htint : place (wideMembers ++ [⟨"tint", .vector .float .four, .single⟩,
      ⟨"gain", .scalar .float, .single⟩]) = .error ⟨"tint"⟩ := rfl
  obtain ⟨-, hapart, -, hstarts⟩ := (place_std140 mixedMembers).2.2.1 _ hmixed
  obtain ⟨shorter, hshorter, hfirst⟩ := hstarts (mixedMembers.take 6) (List.take_prefix 6 _)
  refine ⟨⟨_, hmixed, rfl, rfl, hapart, shorter, hshorter, ?_, hfirst⟩, rfl, rfl, rfl, htint, ?_⟩
  · obtain rfl := Except.ok.inj hshorter
    rfl
  · refine ((place_std140 _).2.2.2 _ htint).resolve_right ?_
    rintro ⟨-, last, hlast, hname⟩
    obtain rfl := Option.mem_some_iff.1 hlast
    exact absurd hname (by decide)

end BlockLayout

end GlslLayout
