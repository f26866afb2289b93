import GlslLayout.Proofs.Source.Bytes

/-!
One look of the search for declarations at the bytes that are left.

* `look`: what the search does at one position; `skip_bounds` says that it moves on and stays inside
  the text.
* `look_of_comment`, `look_of_char`: what it does in front of a comment and of any other character.
* `look_of_high`: it passes a byte outside ASCII by itself, also in the middle of a character.
-/

namespace GlslLayout.Source

set_option autoImplicit false

/-! ## One position -/

/-- How many bytes there are up to the end of the first `*/`, or in all without one. -/
def closeLength : List UInt8 → Nat
  | [] => 0
  | b :: rest =>
    if (bytes ['*', '/']).isPrefixOf (b :: rest) then 2 else 1 + closeLength rest

/-- The number of bytes of the comment at the start. -/
def commentLength? (rest : List UInt8) : Option Nat :=
  if (bytes ['/', '/']).isPrefixOf rest then
    some (rest.takeWhile fun b => !onByte (· == '\n') b).length
  else if (bytes ['/', '*']).isPrefixOf rest then some (2 + closeLength (rest.drop 2))
  else none

/-- The qualifier whose word has the given bytes. -/
def Qualifier.ofBytes? (word : List UInt8) : Option Qualifier :=
  all.find? fun q => bytes q.word == word

/-- What the search does at a position. -/
inductive Look where
  /-- Nothing is left. -/
  | ended
  /-- It goes on some bytes further, where a statement may start or not. -/
  | skip (count : Nat) (atStart : Bool)
  /-- It stops at a qualifier of some bytes. -/
  | keyword (qualifier : Qualifier) (count : Nat)
  deriving DecidableEq, Repr

/-- How many bytes are read. -/
def Look.count : Look → Nat
  | .ended => 0
  | .skip count _ => count
  | .keyword _ count => count

/-- A word is a qualifier only at the start of a statement. -/
def lookWord (atStart : Bool) (word : List UInt8) : Look :=
  match if atStart then Qualifier.ofBytes? word else none with
  | some q => .keyword q word.length
  | none => .skip word.length false

/-- One look at the bytes that are left; `atStart` says whether a statement may start there. -/
def look (atStart : Bool) (rest : List UInt8) : Look :=
  match commentLength? rest with
  | some count => .skip count atStart
  | none =>
    match rest with
    | [] => .ended
    | b :: more =>
      if onByte isBoundary b then .skip 1 true
      else if onByte isIndent b then .skip 1 atStart
      else if onByte isWordChar b then
        lookWord atStart ((b :: more).takeWhile (onByte isWordChar))
      else .skip 1 false

theorem count_lookWord (atStart : Bool) (word : List UInt8) :
    (lookWord atStart word).count = word.length := by
  unfold lookWord
  split <;> rfl

theorem closeLength_le (s : List UInt8) : closeLength s ≤ s.length := by
  fun_induction closeLength s with
  | case1 => simp
  | case2 b rest h =>
    exact (List.isPrefixOf_iff_prefix.1 h).length_le
  | case3 b rest h ih =>
    rw [List.length_cons]
    omega

theorem commentLength?_bounds {rest : List UInt8} {count : Nat}
    (h : commentLength? rest = some count) : 0 < count ∧ count ≤ rest.length := by
  unfold commentLength? at h
  split at h
  · next hopen =>
    obtain ⟨more, rfl⟩ := List.isPrefixOf_iff_prefix.1 hopen
    obtain rfl := Option.some.inj h
    refine ⟨?_, (List.takeWhile_sublist _).length_le⟩
    exact Nat.succ_pos _
  · split at h
    · next hopen =>
      have hle := (List.isPrefixOf_iff_prefix.1 hopen).length_le
      have htwo : (bytes ['/', '*']).length = 2 := by decide
      have hclose := closeLength_le (rest.drop 2)
      obtain rfl := Option.some.inj h
      rw [List.length_drop] at hclose
      omega
    · cases h

theorem count_look (atStart : Bool) {rest : List UInt8} (h : rest ≠ []) :
    0 < (look atStart rest).count ∧ (look atStart rest).count ≤ rest.length := by
  unfold look
  split
  · next count hcount => exact commentLength?_bounds hcount
  · split
    · exact absurd rfl h
    · next b more _ =>
      have hone : 0 < 1 ∧ 1 ≤ (b :: more).length := ⟨Nat.one_pos, Nat.succ_pos _⟩
      split
      · exact hone
      · split
        · exact hone
        · split
          · next hword =>
            rw [count_lookWord]
            refine ⟨?_, (List.takeWhile_sublist _).length_le⟩
            rw [List.takeWhile_cons_of_pos hword]
            exact Nat.succ_pos _
          · exact hone

theorem look_nil (atStart : Bool) : look atStart [] = .ended := by
  cases atStart <;> rfl

/-- Going on is at least one byte further and not behind the end. -/
theorem skip_bounds {src : List UInt8} {pos count : Nat} {atStart next : Bool}
    (h : look atStart (src.drop pos) = .skip count next) :
    pos < pos + count ∧ pos + count ≤ src.length := by
  have hne : src.drop pos ≠ [] := by
    intro hnil
    rw [hnil, look_nil] at h
    cases h
  have hcount := count_look atStart hne
  rw [h, List.length_drop] at hcount
  simp only [Look.count] at hcount
  omega

/-! ## Looking at text -/

theorem Qualifier.ofBytes?_bytes (w : List Char) : ofBytes? (bytes w) = ofWord? w := by
  unfold ofBytes? ofWord?
  congr 1
  funext q
  rw [Bool.eq_iff_iff, beq_iff_eq, beq_iff_eq, bytes_inj]

theorem closeLength_append {l : List UInt8} (h : ∀ b ∈ l, onByte (· == '*') b = false)
    (t : List UInt8) : closeLength (l ++ t) = l.length + closeLength t := by
  induction l with
  | nil => simp
  | cons b l ih =>
    have hopen : (bytes ['*', '/']).isPrefixOf (b :: (l ++ t)) = false := by
      rw [Bool.eq_false_iff]
      intro hopen
      obtain ⟨more, hmore⟩ := List.isPrefixOf_iff_prefix.1 hopen
      have hb := h b (by simp)
      rw [← (List.cons.inj hmore).1] at hb
      exact absurd hb (by decide)
    rw [List.cons_append, closeLength, hopen, ih fun x hx => h x (List.mem_cons_of_mem b hx)]
    simp only [Bool.false_eq_true, if_false, List.length_cons]
    omega

theorem closeLength_bytes (s : List Char) :
    closeLength (bytes s) = (bytes (splitAtClose s).1).length := by
  fun_induction splitAtClose s with
  | case1 s => rfl
  | case2 => rfl
  | case3 c s hopen inside rest hsplit ih =>
    rw [hsplit] at ih
    by_cases hc : c = '*'
    · have hnext : ['*', '/'].isPrefixOf (c :: s) = false := by
        rw [Bool.eq_false_iff]
        intro hprefix
        obtain ⟨more, hmore⟩ := List.isPrefixOf_iff_prefix.1 hprefix
        exact hopen more hc (List.cons.inj hmore).2.symm
      have hbytes : bytes (c :: s) = 42 :: bytes s := by
        rw [hc]
        rfl
      rw [← isPrefixOf_bytes (by decide), hbytes] at hnext
      rw [hbytes, closeLength, hnext, ih, hc]
      exact Nat.add_comm _ _
    · have hstar : Tracks (onByte (· == '*')) (· == '*') := (isAscii_beq (by decide)).tracks
      have hall : ∀ b ∈ String.utf8EncodeChar c, onByte (· == '*') b = false := by
        intro b hb
        rw [hstar c b hb]
        simpa using hc
      rw [bytes_cons, closeLength_append hall, ih, bytes_cons, List.length_append]

theorem commentLength?_bytes (s : List Char) :
    commentLength? (bytes s) = (comment? s).map fun parts => (bytes parts.1).length := by
  unfold commentLength?
  rw [isPrefixOf_bytes (by decide), isPrefixOf_bytes (by decide)]
  have hline : Tracks (fun b => !onByte (· == '\n') b) (· != '\n') :=
    (isAscii_beq (by decide)).tracks.not
  split
  · next hopen =>
    obtain ⟨more, rfl⟩ := List.isPrefixOf_iff_prefix.1 hopen
    rw [takeWhile_bytes hline]
    rfl
  · next hslash =>
    split
    · next hopen =>
      obtain ⟨more, rfl⟩ := List.isPrefixOf_iff_prefix.1 hopen
      have hdrop : (bytes (['/', '*'] ++ more)).drop 2 = bytes more := rfl
      rw [hdrop, closeLength_bytes, Nat.add_comm]
      rfl
    · next hstar =>
      cases hcomment : comment? s with
      | none => rfl
      | some parts =>
        unfold comment? at hcomment
        split at hcomment
        · exact absurd rfl hslash
        · exact absurd rfl hstar
        · cases hcomment

theorem look_of_comment {s text rest : List Char} (atStart : Bool)
    (h : comment? s = some (text, rest)) :
    look atStart (bytes s) = .skip (bytes text).length atStart := by
  simp only [look, commentLength?_bytes, h, Option.map_some]

theorem look_of_char {c : Char} {s : List Char} (atStart : Bool) (h : comment? (c :: s) = none) :
    look atStart (bytes (c :: s)) =
      if isBoundary c then .skip 1 true
      else if isIndent c then .skip 1 atStart
      else if isWordChar c then lookWord atStart (bytes ((c :: s).takeWhile isWordChar))
      else .skip 1 false := by
  obtain ⟨b, more, hmore⟩ := List.exists_cons_of_ne_nil (utf8EncodeChar_ne_nil c)
  have hb : b ∈ String.utf8EncodeChar c := by simp [hmore]
  have hbytes : bytes (c :: s) = b :: (more ++ bytes s) := by
    rw [bytes_cons, hmore, List.cons_append]
  have hlength : commentLength? (b :: (more ++ bytes s)) = none := by
    rw [← hbytes, commentLength?_bytes, h, Option.map_none]
  rw [← takeWhile_bytes isAscii_isWordChar.tracks, hbytes]
  simp only [look, hlength, isAscii_isBoundary.tracks c b hb, isAscii_isIndent.tracks c b hb,
    isAscii_isWordChar.tracks c b hb]

/-- A byte outside ASCII is passed by itself, wherever it stands in its character. -/
theorem look_of_high {b : UInt8} (h : 128 ≤ b.toNat) (atStart : Bool) (rest : List UInt8) :
    look atStart (b :: rest) = .skip 1 false := by
  have honByte : ∀ p : Char → Bool, onByte p b = false := fun p => by simp [onByte, Nat.not_lt.2 h]
  have hopen : ∀ c : Char, (bytes ['/', c]).isPrefixOf (b :: rest) = false := by
    intro c
    rw [Bool.eq_false_iff]
    intro hprefix
    obtain ⟨more, hmore⟩ := List.isPrefixOf_iff_prefix.1 hprefix
    rw [← (List.cons.inj hmore).1] at h
    exact absurd h (by decide)
  have hlength : commentLength? (b :: rest) = none := by
    simp only [commentLength?, hopen, Bool.false_eq_true, if_false]
  simp [look, hlength, honByte]

end GlslLayout.Source
