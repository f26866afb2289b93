import GlslLayout.Proofs.Source.Reading
import GlslLayout.Proofs.Text

/-!
Shader source as bytes.

* `bytes`: the bytes of a text in UTF-8.
* `onByte`: a test of characters as a test of single bytes; `takeWhile_bytes` says that a run of
  bytes is the bytes of a run of characters.
* `IsIndex`: the byte indices between the characters of a text.
* `splitAtByte?`, `between?`: a text taken apart at byte indices, which fails at any other index.
-/

namespace GlslLayout.Source

set_option autoImplicit false

/-! ## Encoding -/

/-- The bytes of a text in UTF-8. -/
def bytes (s : List Char) : List UInt8 :=
  s.flatMap String.utf8EncodeChar

@[simp] theorem bytes_nil : bytes [] = [] := rfl

@[simp] theorem bytes_cons (c : Char) (s : List Char) :
    bytes (c :: s) = String.utf8EncodeChar c ++ bytes s := rfl

@[simp] theorem bytes_append (s t : List Char) : bytes (s ++ t) = bytes s ++ bytes t :=
  List.flatMap_append

theorem toByteArray_bytes (s : List Char) : (bytes s).toByteArray = (String.ofList s).toByteArray :=
  String.toByteArray_ofList.symm

theorem bytes_inj {s t : List Char} : bytes s = bytes t ↔ s = t := by
  refine ⟨fun h => ?_, congrArg bytes⟩
  have hstring : (String.ofList s).toByteArray = (String.ofList t).toByteArray := by
    rw [← toByteArray_bytes, ← toByteArray_bytes, h]
  exact String.ofList_inj.1 (String.toByteArray_inj.1 hstring)

theorem utf8ByteSize_ofList (s : List Char) :
    (String.ofList s).utf8ByteSize = (bytes s).length := by
  rw [← String.size_toByteArray, ← toByteArray_bytes]
  exact congrArg List.length List.toList_data_toByteArray

theorem utf8EncodeChar_ne_nil (c : Char) : String.utf8EncodeChar c ≠ [] := by
  rw [← List.length_pos_iff, String.length_utf8EncodeChar]
  exact c.utf8Size_pos

theorem length_bytes_lt {s : List Char} (h : s ≠ []) (t : List Char) :
    (bytes t).length < (bytes (s ++ t)).length := by
  have hpos := List.length_pos_iff.2 fun hnil => h (bytes_inj.1 hnil)
  rw [bytes_append, List.length_append]
  omega

theorem utf8EncodeChar_of_ascii {c : Char} (h : c.toNat < 128) :
    String.utf8EncodeChar c = [UInt8.ofNat c.toNat] :=
  if_pos (Nat.lt_succ_iff.1 h)

theorem le_toNat_of_mem_utf8EncodeChar {c : Char} {b : UInt8} (h : 128 ≤ c.toNat)
    (hb : b ∈ String.utf8EncodeChar c) : 128 ≤ b.toNat := by
  have hlead : ¬ c.val.toNat ≤ 127 := Nat.not_le.2 h
  simp only [String.utf8EncodeChar, hlead, if_false] at hb
  split at hb
  · simp only [List.mem_cons, List.not_mem_nil, or_false] at hb
    rcases hb with rfl | rfl <;> rw [UInt8.toNat_ofNat'] <;> omega
  · split at hb
    · simp only [List.mem_cons, List.not_mem_nil, or_false] at hb
      rcases hb with rfl | rfl | rfl <;> rw [UInt8.toNat_ofNat'] <;> omega
    · simp only [List.mem_cons, List.not_mem_nil, or_false] at hb
      rcases hb with rfl | rfl | rfl | rfl <;> rw [UInt8.toNat_ofNat'] <;> omega

/-! ## Tests of bytes -/

/-- A test of characters as a test of bytes. A byte outside ASCII fails. -/
def onByte (p : Char → Bool) (b : UInt8) : Bool :=
  decide (b.toNat < 128) && p (Char.ofNat b.toNat)

/-- A test that only characters of ASCII pass. -/
def IsAscii (p : Char → Bool) : Prop :=
  ∀ c, p c = true → c.toNat < 128

/-- A test of bytes that gives the same answer on every byte of a character as a test of characters
gives on the character. -/
def Tracks (P : UInt8 → Bool) (p : Char → Bool) : Prop :=
  ∀ c, ∀ b ∈ String.utf8EncodeChar c, P b = p c

theorem IsAscii.tracks {p : Char → Bool} (hp : IsAscii p) : Tracks (onByte p) p := by
  intro c b hb
  by_cases hc : c.toNat < 128
  · rw [utf8EncodeChar_of_ascii hc, List.mem_singleton] at hb
    have hnat : b.toNat = c.toNat := by
      rw [hb, UInt8.toNat_ofNat']
      omega
    simp [onByte, hnat, hc, Char.ofNat_toNat]
  · have hb := le_toNat_of_mem_utf8EncodeChar (Nat.not_lt.1 hc) hb
    have hpc : p c = false := Bool.eq_false_iff.2 fun h => hc (hp c h)
    simp [onByte, hpc, Nat.not_lt.2 hb]

theorem Tracks.not {P : UInt8 → Bool} {p : Char → Bool} (h : Tracks P p) :
    Tracks (fun b => !P b) fun c => !p c :=
  fun c b hb => congrArg Bool.not (h c b hb)

theorem isAscii_beq {c : Char} (hc : c.toNat < 128) : IsAscii (· == c) := by
  intro d hd
  rw [beq_iff_eq.1 hd]
  exact hc

theorem isAscii_isGap : IsAscii isGap := by
  intro c hc
  rcases Bool.or_eq_true_iff.1 hc with h | h <;> rw [beq_iff_eq.1 h] <;> decide

theorem isAscii_isIndent : IsAscii isIndent := by
  intro c hc
  rcases Bool.or_eq_true_iff.1 hc with h | h
  · exact isAscii_isGap c h
  · rw [beq_iff_eq.1 h]
    decide

theorem isAscii_isBoundary : IsAscii isBoundary := by
  intro c hc
  rcases isBoundary_cases hc with rfl | rfl | rfl | rfl <;> decide

theorem isAscii_isWordChar : IsAscii isWordChar := by
  intro c hc
  rcases Bool.or_eq_true_iff.1 hc with h | h
  · exact Nat.lt_of_le_of_lt (Text.range_of_isAlphanum h).2 (by decide)
  · rw [beq_iff_eq.1 h]
    decide

section Runs

variable {P : UInt8 → Bool} {p : Char → Bool}

theorem Tracks.all_of_pos (h : Tracks P p) {s : List Char} (hs : ∀ c ∈ s, p c = true) :
    ∀ b ∈ bytes s, P b = true := by
  intro b hb
  obtain ⟨c, hc, hbc⟩ := List.mem_flatMap.1 hb
  rw [h c b hbc]
  exact hs c hc

theorem Tracks.head?_of_neg (h : Tracks P p) {s : List Char} (hs : ∀ c ∈ s.head?, p c = false) :
    ∀ b ∈ (bytes s).head?, P b = false := by
  intro b hb
  cases s with
  | nil => cases hb
  | cons c s =>
    rw [bytes_cons, List.head?_append_of_ne_nil _ (utf8EncodeChar_ne_nil c)] at hb
    rw [h c b (List.mem_of_mem_head? hb)]
    exact hs c rfl

theorem takeWhile_bytes (h : Tracks P p) (s : List Char) :
    (bytes s).takeWhile P = bytes (s.takeWhile p) := by
  have hall : ∀ b ∈ bytes (s.takeWhile p), P b = true :=
    h.all_of_pos fun c hc => List.mem_takeWhile_imp hc
  have hhead : ∀ b ∈ (bytes (s.dropWhile p)).head?, P b = false :=
    h.head?_of_neg fun c hc => Text.head?_dropWhile_eq_false hc
  conv => lhs; rw [← List.takeWhile_append_dropWhile (p := p) (l := s), bytes_append]
  exact Text.takeWhile_append_run hall hhead

end Runs

theorem isPrefixOf_bytes {w : List Char} (hw : w.all (·.toNat < 128) = true) (s : List Char) :
    (bytes w).isPrefixOf (bytes s) = w.isPrefixOf s := by
  induction w generalizing s with
  | nil => simp
  | cons c w ih =>
    obtain ⟨hascii, hrest⟩ : c.toNat < 128 ∧ w.all (·.toNat < 128) = true := by simpa using hw
    have hc := utf8EncodeChar_of_ascii hascii
    have htracks : Tracks (onByte (· == c)) (· == c) := (isAscii_beq hascii).tracks
    cases s with
    | nil => simp [hc]
    | cons d s =>
      by_cases hd : d = c
      · subst hd
        simp [hc, ih hrest s]
      · -- the bytes of another character start with another byte
        obtain ⟨b, more, hmore⟩ := List.exists_cons_of_ne_nil
          (List.append_ne_nil_of_left_ne_nil (utf8EncodeChar_ne_nil d) (bytes s))
        have hfirst : onByte (· == c) b = false :=
          htracks.head?_of_neg (s := d :: s) (by simpa using hd) b (by rw [bytes_cons, hmore]; rfl)
        have hb : UInt8.ofNat c.toNat ≠ b := by
          rintro rfl
          rw [htracks c _ (by simp [hc])] at hfirst
          simp at hfirst
        simp [hc, hmore, List.isPrefixOf, beq_eq_false_iff_ne.2 hb,
          beq_eq_false_iff_ne.2 (Ne.symm hd)]

/-! ## Indices -/

/-- A byte index between two characters of a text or at one of its ends. -/
def IsIndex (s : List Char) (i : Nat) : Prop :=
  String.Pos.Raw.IsValid (String.ofList s) ⟨i⟩

theorem isIndex_iff {s : List Char} {i : Nat} :
    IsIndex s i ↔ ∃ front back, s = front ++ back ∧ i = (bytes front).length := by
  rw [IsIndex, String.Pos.Raw.isValid_ofList]
  simp only [utf8ByteSize_ofList]
  constructor
  · rintro ⟨k, hk⟩
    exact ⟨s.take k, s.drop k, (List.take_append_drop k s).symm, hk⟩
  · rintro ⟨front, back, rfl, rfl⟩
    exact ⟨front.length, by rw [List.take_left]⟩

theorem isIndex_append (front back : List Char) : IsIndex (front ++ back) (bytes front).length :=
  isIndex_iff.2 ⟨front, back, rfl, rfl⟩

/-- The parts of a text in front of a byte index and behind it. There are none if the index is
inside a character or past the end. -/
def splitAtByte? : List Char → Nat → Option (List Char × List Char)
  | s, 0 => some ([], s)
  | [], _ + 1 => none
  | c :: s, n + 1 =>
    if c.utf8Size ≤ n + 1 then
      (splitAtByte? s (n + 1 - c.utf8Size)).map fun parts => (c :: parts.1, parts.2)
    else none

theorem splitAtByte?_eq_some_iff {s front back : List Char} {i : Nat} :
    splitAtByte? s i = some (front, back) ↔ s = front ++ back ∧ i = (bytes front).length := by
  fun_induction splitAtByte? s i generalizing front back with
  | case1 s =>
    constructor
    · intro h
      obtain ⟨rfl, rfl⟩ := Prod.mk.inj (Option.some.inj h)
      exact ⟨rfl, rfl⟩
    · rintro ⟨rfl, hzero⟩
      obtain rfl : front = [] := bytes_inj.1 (List.length_eq_zero_iff.1 hzero.symm)
      rfl
  | case2 n =>
    refine ⟨fun h => by simp at h, ?_⟩
    rintro ⟨hnil, hlength⟩
    obtain ⟨rfl, -⟩ := List.append_eq_nil_iff.1 hnil.symm
    cases hlength
  | case3 c s n hle ih =>
    simp only [Option.map_eq_some_iff, Prod.mk.injEq, Prod.exists, ih]
    constructor
    · rintro ⟨front, back, ⟨rfl, hlength⟩, rfl, rfl⟩
      refine ⟨rfl, ?_⟩
      rw [bytes_cons, List.length_append, String.length_utf8EncodeChar]
      omega
    · rintro ⟨hs, hlength⟩
      cases front with
      | nil => cases hlength
      | cons d front =>
        obtain ⟨rfl, rfl⟩ := List.cons.inj hs
        rw [bytes_cons, List.length_append, String.length_utf8EncodeChar] at hlength
        exact ⟨front, back, ⟨rfl, by omega⟩, rfl, rfl⟩
  | case4 c s n hlt =>
    refine ⟨fun h => by simp at h, ?_⟩
    rintro ⟨hs, hlength⟩
    cases front with
    | nil => cases hlength
    | cons d front =>
      obtain ⟨rfl, rfl⟩ := List.cons.inj hs
      rw [bytes_cons, List.length_append, String.length_utf8EncodeChar] at hlength
      omega

theorem isSome_splitAtByte?_iff {s : List Char} {i : Nat} :
    (splitAtByte? s i).isSome = true ↔ IsIndex s i := by
  simp only [Option.isSome_iff_exists, Prod.exists, splitAtByte?_eq_some_iff, isIndex_iff]

instance (s : List Char) (i : Nat) : Decidable (IsIndex s i) :=
  decidable_of_iff _ isSome_splitAtByte?_iff

/-- The parts of a text in front of, between and behind two byte indices. -/
def between? (s : List Char) (i j : Nat) : Option (List Char × List Char × List Char) :=
  (splitAtByte? s j).bind fun outer =>
    (splitAtByte? outer.1 i).map fun inner => (inner.1, inner.2, outer.2)

theorem between?_append (before inside after : List Char) :
    between? (before ++ inside ++ after) (bytes before).length (bytes (before ++ inside)).length =
      some (before, inside, after) := by
  have houter : splitAtByte? (before ++ inside ++ after) (bytes (before ++ inside)).length =
      some (before ++ inside, after) := splitAtByte?_eq_some_iff.2 ⟨rfl, rfl⟩
  have hinner : splitAtByte? (before ++ inside) (bytes before).length = some (before, inside) :=
    splitAtByte?_eq_some_iff.2 ⟨rfl, rfl⟩
  rw [between?, houter, Option.bind_some, hinner, Option.map_some]

end GlslLayout.Source
