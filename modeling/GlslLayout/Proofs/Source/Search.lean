import GlslLayout.Proofs.Source.Inert
import GlslLayout.Proofs.Source.Look

/-!
The search for the next qualifier at the start of a statement, byte by byte.

* `findKeyword`: the search from a position, which need not stand between two characters.
* `Ahead`: where the first qualifier at the start of a statement stands in a text.
* `searched`: the search finds it, and what it passes is kept text.
* `backOver_append`: where the cut starts that the qualifier opens.
-/

namespace GlslLayout.Source

set_option autoImplicit false

/-! ## The search -/

/-- A qualifier that was found. -/
structure KeywordAt where
  qualifier : Qualifier
  /-- The index of the gap in front of it. -/
  start : Nat
  /-- The index behind it. -/
  stop : Nat
  deriving DecidableEq, Repr

/-- The index from which only gaps lead to `pos`, not in front of `origin`. -/
def backOver (src : List UInt8) (origin : Nat) : Nat → Nat
  | 0 => 0
  | pos + 1 =>
    if origin ≤ pos ∧ src[pos]?.any (onByte isGap) = true then backOver src origin pos else pos + 1

/-- The first qualifier at the start of a statement, searched from the index `pos`. The search began
at the index `origin`. -/
def findKeyword (src : List UInt8) (origin pos : Nat) (atStart : Bool) : Option KeywordAt :=
  match h : look atStart (src.drop pos) with
  | .ended => none
  | .keyword q count => some ⟨q, backOver src origin pos, pos + count⟩
  | .skip count next =>
    have := skip_bounds h
    findKeyword src origin (pos + count) next
termination_by src.length - pos

theorem findKeyword_eq (src : List UInt8) (origin pos : Nat) (atStart : Bool) :
    findKeyword src origin pos atStart =
      match look atStart (src.drop pos) with
      | .ended => none
      | .keyword q count => some ⟨q, backOver src origin pos, pos + count⟩
      | .skip count next => findKeyword src origin (pos + count) next := by
  rw [findKeyword]
  split <;> next h => simp only [h]

theorem findKeyword_of_skip {src : List UInt8} {pos count : Nat} {atStart next : Bool}
    (h : look atStart (src.drop pos) = .skip count next) (origin : Nat) :
    findKeyword src origin pos atStart = findKeyword src origin (pos + count) next := by
  rw [findKeyword_eq, h]

/-! ## Moving over text

`front` is the text in front of the position, and `piece` the text that is passed.
-/

theorem drop_bytes (front s : List Char) :
    (bytes (front ++ s)).drop (bytes front).length = bytes s := by
  rw [bytes_append, List.drop_left]

/-- The search at the position between `front` and `s`. -/
def searchAt (origin : Nat) (front s : List Char) (atStart : Bool) : Option KeywordAt :=
  findKeyword (bytes (front ++ s)) origin (bytes front).length atStart

theorem searchAt_of_skip {piece s : List Char} {atStart next : Bool}
    (h : look atStart (bytes (piece ++ s)) = .skip (bytes piece).length next) (origin : Nat)
    (front : List Char) :
    searchAt origin front (piece ++ s) atStart = searchAt origin (front ++ piece) s next := by
  rw [← drop_bytes front] at h
  rw [searchAt, searchAt, findKeyword_of_skip h, bytes_append front piece, List.length_append,
    List.append_assoc]

theorem findKeyword_of_high {high : List UInt8} (h : ∀ b ∈ high, 128 ≤ b.toNat) (origin : Nat)
    (before after : List UInt8) :
    findKeyword (before ++ (high ++ after)) origin before.length false =
      findKeyword (before ++ (high ++ after)) origin (before.length + high.length) false := by
  induction high generalizing before with
  | nil => rfl
  | cons b high ih =>
    have hlook :
        look false ((before ++ (b :: high ++ after)).drop before.length) = .skip 1 false := by
      rw [List.drop_left]
      exact look_of_high (h b (by simp)) false _
    have hnext := ih (fun x hx => h x (List.mem_cons_of_mem b hx)) (before ++ [b])
    simp only [List.append_assoc, List.singleton_append, List.length_append, List.length_singleton]
      at hnext
    rw [findKeyword_of_skip hlook, List.cons_append, hnext, List.length_cons]
    congr 1
    omega

theorem searchAt_of_ascii {c : Char} {s : List Char} {atStart next : Bool} (hc : c.toNat < 128)
    (h : look atStart (bytes (c :: s)) = .skip 1 next) (origin : Nat) (front : List Char) :
    searchAt origin front (c :: s) atStart = searchAt origin (front ++ [c]) s next := by
  have hone : (bytes [c]).length = 1 := by
    rw [bytes_cons, utf8EncodeChar_of_ascii hc]
    rfl
  rw [← hone] at h
  have hskip : look atStart (bytes ([c] ++ s)) = .skip (bytes [c]).length next := h
  exact searchAt_of_skip hskip origin front

/-- A character that is neither boundary nor indentation nor part of a word is passed, byte by
byte. -/
theorem searchAt_of_other {c : Char} {s : List Char} {atStart : Bool}
    (hlook : look atStart (bytes (c :: s)) = .skip 1 false) (origin : Nat) (front : List Char) :
    searchAt origin front (c :: s) atStart = searchAt origin (front ++ [c]) s false := by
  by_cases hc : c.toNat < 128
  · exact searchAt_of_ascii hc hlook origin front
  · obtain ⟨b, high, hhigh⟩ := List.exists_cons_of_ne_nil (utf8EncodeChar_ne_nil c)
    have hall : ∀ x ∈ high, 128 ≤ x.toNat := by
      intro x hx
      apply le_toNat_of_mem_utf8EncodeChar (Nat.not_lt.1 hc)
      rw [hhigh]
      exact List.mem_cons_of_mem b hx
    have hnext := findKeyword_of_high hall origin (bytes front ++ [b]) (bytes s)
    rw [← drop_bytes front] at hlook
    rw [searchAt, searchAt, findKeyword_of_skip hlook]
    simp only [bytes_append, bytes_cons, bytes_nil, hhigh, List.append_assoc, List.cons_append,
      List.nil_append, List.append_nil, List.length_append, List.length_cons,
      List.length_nil] at hnext ⊢
    rw [hnext]
    congr 1
    omega

/-! ## What the search passes is kept -/

theorem Cut.read?_word {lead w s : List Char} (hlead : ∀ c ∈ lead, isGap c = true)
    (hw : ∀ c ∈ w, isWordChar c = true) (hne : w ≠ [])
    (hend : ∀ c ∈ s.head?, isWordChar c = false) :
    Cut.read? (lead ++ (w ++ s)) = (Qualifier.ofWord? w).bind fun q => Cut.readBody? lead q s := by
  have hgap : ∀ c ∈ (w ++ s).head?, isGap c = false := by
    obtain ⟨c, w, rfl⟩ := List.exists_cons_of_ne_nil hne
    intro d hd
    obtain rfl : c = d := by simpa using hd
    exact not_isGap_of_isWordChar (hw c (by simp))
  simp only [Cut.read?]
  rw [Text.dropWhile_append_run hlead hgap, Text.takeWhile_append_run hlead hgap,
    Text.takeWhile_append_run hw hend, Text.dropWhile_append_run hw hend]
  cases Qualifier.ofWord? w <;> rfl

theorem not_isBoundary_of_isWordChar {c : Char} (h : isWordChar c = true) :
    isBoundary c = false := by
  rw [Bool.eq_false_iff]
  intro hb
  rw [not_isWordChar_of_isBoundary hb] at h
  cases h

/-- A word that is no declaration is kept, and then no statement starts. -/
theorem segmentFrom_word {w s : List Char} {atStart : Bool} (hw : ∀ c ∈ w, isWordChar c = true)
    (hne : w ≠ []) (h : atStart = true → Cut.read? (w ++ s) = none) :
    segmentFrom atStart (w ++ s) = (segmentFrom false s).keep w := by
  obtain ⟨c, w, rfl⟩ := List.exists_cons_of_ne_nil hne
  have hc := hw c (by simp)
  have hopen : comment? (c :: (w ++ s)) = none := by
    rw [comment?_cons_eq_none_iff]
    rintro rfl
    exact absurd hc (by decide)
  have hafter : (Piece.char c).startsAfter atStart = false := by
    simp [Piece.startsAfter, not_isBoundary_of_isWordChar hc, not_isIndent_of_isWordChar hc]
  have hrest : ∀ d ∈ w, isPlain d = true := fun d hd =>
    isPlain_of_isWordChar (hw d (List.mem_cons_of_mem c hd))
  rw [List.cons_append] at h ⊢
  rw [segmentFrom_of_char h hopen, hafter, segmentFrom_plain hrest, Segmentation.keep_keep]
  rfl

theorem not_isBoundary_of_isGap {c : Char} (h : isGap c = true) : isBoundary c = false := by
  rw [Bool.eq_false_iff]
  intro hb
  rw [not_isGap_of_isBoundary hb] at h
  cases h

theorem Cut.read?_cons_gap_eq_none {c : Char} {s : List Char} (hc : isGap c = true)
    (h : Cut.read? s = none) : Cut.read? (c :: s) = none := by
  rw [← Option.not_isSome_iff_eq_none, Cut.isSome_read?_cons_gap hc, h]
  simp

/-- A gap is kept unless a declaration follows it. -/
theorem segmentFrom_gap {c : Char} {s : List Char} {atStart : Bool} (hc : isGap c = true)
    (h : atStart = true → Cut.read? s = none) :
    segmentFrom atStart (c :: s) = (segmentFrom atStart s).keep [c] := by
  have hopen : comment? (c :: s) = none := by
    rw [comment?_cons_eq_none_iff]
    rintro rfl
    exact absurd hc (by decide)
  have hafter : (Piece.char c).startsAfter atStart = atStart := by
    simp [Piece.startsAfter, not_isBoundary_of_isGap hc, isIndent, hc]
  rw [segmentFrom_of_char (fun hstart => Cut.read?_cons_gap_eq_none hc (h hstart)) hopen, hafter]

theorem segmentFrom_gaps {lead s : List Char} (hlead : ∀ c ∈ lead, isGap c = true)
    (h : Cut.read? s = none) :
    Cut.read? (lead ++ s) = none ∧
      segmentFrom true (lead ++ s) = (segmentFrom true s).keep lead := by
  induction lead with
  | nil => exact ⟨h, (Segmentation.keep_nil _).symm⟩
  | cons c lead ih =>
    have hc := hlead c (by simp)
    obtain ⟨hread, hsegment⟩ := ih fun d hd => hlead d (List.mem_cons_of_mem c hd)
    refine ⟨Cut.read?_cons_gap_eq_none hc hread, ?_⟩
    rw [List.cons_append, segmentFrom_gap hc fun _ => hread, hsegment, Segmentation.keep_keep]
    rfl

/-- A text whose first piece is kept starts with no declaration. -/
theorem Cut.read?_eq_none_of_kept {s : List Char}
    (h : (segmentFrom true s).cuts = [] ∨ (segmentFrom true s).head ≠ []) : Cut.read? s = none := by
  rw [Option.eq_none_iff_forall_ne_some]
  rintro ⟨cut, rest⟩ hread
  rw [segmentFrom_of_cut hread] at h
  rcases h with h | h
  · cases h
  · exact h rfl

/-- `Ahead atStart s kept lead q rest`: the first qualifier at the start of a statement of `s` is
`q`. The text `kept` in front of it and of the gap `lead` is kept whatever the qualifier opens. -/
structure Ahead (atStart : Bool) (s kept lead : List Char) (q : Qualifier) (rest : List Char) :
    Prop where
  text : s = kept ++ (lead ++ (q.word ++ rest))
  lead_gap : ∀ c ∈ lead, isGap c = true
  kept_last : ∀ c ∈ kept.getLast?, isGap c = false
  whole : ∀ c ∈ rest.head?, isWordChar c = false
  start : kept = [] → atStart = true
  segmented : segmentFrom atStart s = (segmentFrom true (lead ++ (q.word ++ rest))).keep kept

namespace Ahead

variable {atStart next : Bool} {s kept lead rest : List Char} {q : Qualifier}

theorem exists_head? (h : Ahead atStart s [] lead q rest) : ∃ c ∈ s.head?, c ≠ '\n' := by
  obtain ⟨c, word, hword⟩ := List.exists_cons_of_ne_nil q.word_ne_nil
  rw [h.text, hword]
  cases lead with
  | nil =>
    have hc : isWordChar c = true := isWordChar_of_mem_word (q := q) (by simp [hword])
    refine ⟨c, rfl, ?_⟩
    rintro rfl
    exact absurd hc (by decide)
  | cons d lead =>
    have hd := h.lead_gap d (by simp)
    refine ⟨d, rfl, ?_⟩
    rintro rfl
    exact absurd hd (by decide)

/-- Kept text in front moves the qualifier away. -/
theorem keep {piece : List Char} (h : Ahead next s kept lead q rest) (hne : piece ≠ [])
    (hlast : kept = [] → ∀ c ∈ piece.getLast?, isGap c = false)
    (hsegment : segmentFrom atStart (piece ++ s) = (segmentFrom next s).keep piece) :
    Ahead atStart (piece ++ s) (piece ++ kept) lead q rest where
  text := by rw [List.append_assoc, ← h.text]
  lead_gap := h.lead_gap
  kept_last := by
    by_cases hkept : kept = []
    · rw [hkept, List.append_nil]
      exact hlast hkept
    · rw [List.getLast?_append_of_ne_nil piece hkept]
      exact h.kept_last
  whole := h.whole
  start := fun hnil => absurd (List.append_eq_nil_iff.1 hnil).1 hne
  segmented := by rw [hsegment, h.segmented, Segmentation.keep_keep]

/-- A gap in front of a qualifier at the very start belongs to it. -/
theorem gap {c : Char} (h : Ahead atStart s [] lead q rest) (hc : isGap c = true) :
    Ahead atStart (c :: s) [] (c :: lead) q rest where
  text := by rw [h.text]; rfl
  lead_gap := by
    intro d hd
    rcases List.mem_cons.1 hd with rfl | hd
    · exact hc
    · exact h.lead_gap d hd
  kept_last := h.kept_last
  whole := h.whole
  start := h.start
  segmented := by rw [h.start rfl, h.text, Segmentation.keep_nil]; rfl

end Ahead

/-- The search between `front` and `s` is right: it finds nothing and `s` is kept as a whole, or it
finds the first qualifier at the start of a statement. -/
def Searched (origin : Nat) (front s : List Char) (atStart : Bool) : Prop :=
  (searchAt origin front s atStart = none ∧ segmentFrom atStart s = ⟨s, []⟩) ∨
    ∃ kept lead q rest, Ahead atStart s kept lead q rest ∧
      searchAt origin front s atStart =
        some ⟨q, backOver (bytes (front ++ s)) origin (bytes (front ++ (kept ++ lead))).length,
          (bytes (front ++ (kept ++ lead ++ q.word))).length⟩

namespace Searched

variable {origin : Nat} {front s : List Char} {atStart next : Bool}

theorem pass {piece : List Char} (h : Searched origin (front ++ piece) s next) (hne : piece ≠ [])
    (hmove : searchAt origin front (piece ++ s) atStart = searchAt origin (front ++ piece) s next)
    (hlast : (∃ d ∈ s.head?, d ≠ '\n') → ∀ c ∈ piece.getLast?, isGap c = false)
    (hsegment : segmentFrom atStart (piece ++ s) = (segmentFrom next s).keep piece) :
    Searched origin front (piece ++ s) atStart := by
  rcases h with ⟨hnone, hplain⟩ | ⟨kept, lead, q, rest, hahead, hfound⟩
  · exact Or.inl ⟨hmove.trans hnone, by rw [hsegment, hplain]; rfl⟩
  · refine Or.inr ⟨piece ++ kept, lead, q, rest, hahead.keep hne ?_ hsegment, ?_⟩
    · rintro rfl
      exact hlast hahead.exists_head?
    · rw [hmove, hfound]
      simp only [List.append_assoc]

theorem gap {c : Char} (h : Searched origin (front ++ [c]) s atStart) (hc : isGap c = true)
    (hmove : searchAt origin front (c :: s) atStart = searchAt origin (front ++ [c]) s atStart) :
    Searched origin front (c :: s) atStart := by
  rcases h with ⟨hnone, hplain⟩ | ⟨kept, lead, q, rest, hahead, hfound⟩
  · refine Or.inl ⟨hmove.trans hnone, ?_⟩
    rw [segmentFrom_gap hc, hplain]
    · rfl
    · rintro rfl
      exact Cut.read?_eq_none_of_kept (Or.inl (by rw [hplain]))
  · cases kept with
    | nil =>
      refine Or.inr ⟨[], c :: lead, q, rest, hahead.gap hc, ?_⟩
      rw [hmove, hfound]
      simp only [List.append_assoc, List.nil_append, List.cons_append]
    | cons d kept =>
      have hread : atStart = true → Cut.read? s = none := by
        rintro rfl
        refine Cut.read?_eq_none_of_kept (Or.inr ?_)
        rw [hahead.segmented]
        exact List.cons_ne_nil _ _
      have hkeep := hahead.keep (List.cons_ne_nil c []) (fun hnil => by cases hnil)
        (segmentFrom_gap hc hread)
      refine Or.inr ⟨[c] ++ d :: kept, lead, q, rest, hkeep, ?_⟩
      rw [hmove, hfound]
      simp only [List.append_assoc, List.cons_append, List.nil_append]

end Searched

/-! ## The search finds what it should -/

section Cases

variable {origin : Nat} {front s : List Char} {atStart : Bool}

theorem searched_word {w : List Char} (hw : ∀ c ∈ w, isWordChar c = true) (hne : w ≠ [])
    (hend : ∀ c ∈ s.head?, isWordChar c = false)
    (hlook : look atStart (bytes (w ++ s)) = lookWord atStart (bytes w))
    (h : Searched origin (front ++ w) s false) : Searched origin front (w ++ s) atStart := by
  rw [lookWord, Qualifier.ofBytes?_bytes] at hlook
  cases hq : if atStart then Qualifier.ofWord? w else none with
  | some q =>
    simp only [hq] at hlook
    have hstart : atStart = true := by
      by_contra hstart
      simp [hstart] at hq
    obtain rfl : q.word = w := Qualifier.ofWord?_eq_some_iff.1 (by simpa [hstart] using hq)
    have hahead : Ahead atStart (q.word ++ s) [] [] q s :=
      ⟨rfl, by simp, by simp, hend, fun _ => hstart, by rw [hstart]; rfl⟩
    refine Or.inr ⟨[], [], q, s, hahead, ?_⟩
    rw [← drop_bytes front] at hlook
    rw [searchAt, findKeyword_eq, hlook]
    simp only [List.append_nil, List.nil_append, bytes_append, List.length_append]
  | none =>
    simp only [hq] at hlook
    have hread : atStart = true → Cut.read? (w ++ s) = none := by
      intro hstart
      have hnone : Qualifier.ofWord? w = none := by simpa [hstart] using hq
      rw [← List.nil_append (w ++ s), Cut.read?_word (by simp) hw hne hend, hnone, Option.bind_none]
    refine h.pass hne (searchAt_of_skip hlook origin front) ?_ (segmentFrom_word hw hne hread)
    exact fun _ c hc => not_isGap_of_isWordChar (hw c (List.mem_of_getLast? hc))

/-- The search at a character that opens no comment and no word. -/
theorem searched_char {c : Char} (hcomment : comment? (c :: s) = none)
    (hword : isWordChar c = false) (h : ∀ next, Searched origin (front ++ [c]) s next) :
    Searched origin front (c :: s) atStart := by
  have hlook := look_of_char atStart hcomment
  have hpass : isGap c = false →
      searchAt origin front (c :: s) atStart =
        searchAt origin (front ++ [c]) s ((Piece.char c).startsAfter atStart) →
      Searched origin front (c :: s) atStart := by
    intro hgap hmove
    refine (h _).pass (List.cons_ne_nil c []) hmove ?_
      (segmentFrom_of_char (fun _ => Cut.read?_eq_none_of_head hgap hword) hcomment)
    intro _ d hd
    obtain rfl : c = d := by simpa using hd
    exact hgap
  cases hboundary : isBoundary c with
  | true =>
    apply hpass (not_isGap_of_isBoundary hboundary)
    rw [if_pos hboundary] at hlook
    rw [Piece.startsAfter, hboundary, Bool.true_or]
    exact searchAt_of_ascii (isAscii_isBoundary c hboundary) hlook origin front
  | false =>
    simp only [hboundary, hword, Bool.false_eq_true, if_false] at hlook
    cases hindent : isIndent c with
    | true =>
      rw [if_pos hindent] at hlook
      have hmove := searchAt_of_ascii (isAscii_isIndent c hindent) hlook origin front
      cases hgap : isGap c with
      | true => exact (h atStart).gap hgap hmove
      | false =>
        apply hpass hgap
        rw [Piece.startsAfter, hboundary, hindent, Bool.false_or, Bool.and_true]
        exact hmove
    | false =>
      simp only [hindent, Bool.false_eq_true, if_false] at hlook
      apply hpass (Bool.or_eq_false_iff.1 hindent).1
      rw [Piece.startsAfter, hboundary, hindent, Bool.false_or, Bool.and_false]
      exact searchAt_of_other hlook origin front

theorem searched_wordChar {c : Char} (hcomment : comment? (c :: s) = none)
    (hword : isWordChar c = true)
    (h : ∀ rest : List Char, rest.length < (c :: s).length →
      ∀ front, Searched origin front rest false) :
    Searched origin front (c :: s) atStart := by
  have hlook := look_of_char atStart hcomment
  simp only [not_isBoundary_of_isWordChar hword, not_isIndent_of_isWordChar hword, hword,
    Bool.false_eq_true, if_false, if_true] at hlook
  have hne : (c :: s).takeWhile isWordChar ≠ [] := by
    rw [List.takeWhile_cons_of_pos hword]
    exact List.cons_ne_nil _ _
  have hsplit : (c :: s).takeWhile isWordChar ++ (c :: s).dropWhile isWordChar = c :: s :=
    List.takeWhile_append_dropWhile
  have hlt : ((c :: s).dropWhile isWordChar).length < (c :: s).length := by
    have hlength := congrArg List.length hsplit
    have hpos := List.length_pos_iff.2 hne
    rw [List.length_append] at hlength
    omega
  have hfound := searched_word (fun x hx => List.mem_takeWhile_imp hx) hne
    (fun x hx => Text.head?_dropWhile_eq_false hx) (by rw [hsplit]; exact hlook)
    (h _ hlt (front ++ (c :: s).takeWhile isWordChar))
  rw [hsplit] at hfound
  exact hfound

theorem searched_comment {text rest : List Char} (hcomment : comment? s = some (text, rest))
    (h : Searched origin (front ++ text) rest atStart) : Searched origin front s atStart := by
  have hlook := look_of_comment atStart hcomment
  have hsegment := segmentFrom_of_comment atStart hcomment
  -- only a line comment can end with a gap, and then a line break follows
  have hlast : (∃ d ∈ rest.head?, d ≠ '\n') → ∀ c ∈ text.getLast?, isGap c = false := by
    rintro ⟨d, hd, hbreak⟩ c hc
    have hrest : rest ≠ [] := fun hnil => by simp [hnil] at hd
    rcases comment?_whole_or_break hcomment hrest with hwhole | ⟨hline, -⟩
    · rw [getLast?_of_whole hwhole] at hc
      obtain rfl := Option.mem_some_iff.1 hc
      decide
    · rw [hline] at hd
      exact absurd (Option.mem_some_iff.1 hd).symm hbreak
  have hne := ne_nil_of_comment? hcomment
  obtain rfl := append_of_comment? hcomment
  exact h.pass hne (searchAt_of_skip hlook origin front) hlast hsegment

end Cases

/-- The search is right wherever it stands between two characters. -/
theorem searched (origin : Nat) (front s : List Char) (atStart : Bool) :
    Searched origin front s atStart := by
  induction hn : s.length using Nat.strong_induction_on generalizing front s atStart with
  | _ n ih =>
    subst hn
    cases hcomment : comment? s with
    | some parts =>
      have hlt := length_lt_of_comment? hcomment
      exact searched_comment hcomment (ih parts.2.length hlt _ parts.2 atStart rfl)
    | none =>
      cases s with
      | nil =>
        refine Or.inl ⟨?_, segmentFrom_nil atStart⟩
        rw [searchAt, findKeyword_eq, drop_bytes, bytes_nil, look_nil]
      | cons c s =>
        cases hword : isWordChar c with
        | false =>
          exact searched_char hcomment hword fun next => ih s.length (by simp) _ s next rfl
        | true =>
          exact searched_wordChar hcomment hword fun rest hlt front =>
            ih rest.length hlt front rest false rfl

/-! ## The gap in front of a qualifier -/

theorem backOver_step {src before after : List UInt8} {b : UInt8} {origin : Nat}
    (hsrc : src = before ++ b :: after) (horigin : origin ≤ before.length) :
    backOver src origin (before.length + 1) =
      if onByte isGap b then backOver src origin before.length else before.length + 1 := by
  have hb : src[before.length]? = some b := by simp [hsrc]
  simp [backOver, hb, horigin]

theorem backOver_origin (src : List UInt8) (origin : Nat) :
    backOver src origin origin = origin := by
  cases origin with
  | zero => rfl
  | succ n =>
    rw [backOver, if_neg]
    omega

/-- Going back from a qualifier ends behind the kept text, where the cut starts. -/
theorem backOver_append (done kept : List Char) {lead : List Char} (rest : List Char)
    (hlead : ∀ c ∈ lead, isGap c = true) (hkept : ∀ c ∈ kept.getLast?, isGap c = false) :
    backOver (bytes (done ++ (kept ++ (lead ++ rest)))) (bytes done).length
      (bytes (done ++ (kept ++ lead))).length = (bytes (done ++ kept)).length := by
  induction lead using List.reverseRecOn generalizing rest with
  | nil =>
    induction kept using List.reverseRecOn with
    | nil => simp only [List.append_nil, backOver_origin]
    | append_singleton kept d _ =>
      -- the last byte of the kept text belongs to its last character
      obtain ⟨init, b, hinit⟩ := (List.eq_nil_or_concat' (String.utf8EncodeChar d)).resolve_left
        (utf8EncodeChar_ne_nil d)
      have hgap : onByte isGap b = false := by
        rw [isAscii_isGap.tracks d b (by simp [hinit])]
        exact hkept d (by simp)
      have hsrc : bytes (done ++ (kept ++ [d] ++ ([] ++ rest))) =
          (bytes (done ++ kept) ++ init) ++ b :: bytes rest := by
        simp [hinit]
      have hpos : (bytes (done ++ (kept ++ [d]))).length =
          (bytes (done ++ kept) ++ init).length + 1 := by
        simp [hinit]
        omega
      rw [List.append_nil, hpos, backOver_step hsrc (by simp), hgap]
      rfl
  | append_singleton lead c ih =>
    have hc := hlead c (by simp)
    obtain ⟨b, hb⟩ : ∃ b, String.utf8EncodeChar c = [b] :=
      ⟨_, utf8EncodeChar_of_ascii (isAscii_isGap c hc)⟩
    have hgap : onByte isGap b = true := by
      rw [isAscii_isGap.tracks c b (by simp [hb]), hc]
    have hsrc : bytes (done ++ (kept ++ (lead ++ [c] ++ rest))) =
        bytes (done ++ (kept ++ lead)) ++ b :: bytes rest := by
      simp [hb]
    have hpos : (bytes (done ++ (kept ++ (lead ++ [c])))).length =
        (bytes (done ++ (kept ++ lead))).length + 1 := by
      simp [hb]
      omega
    have hback := ih ([c] ++ rest) fun d hd => hlead d (List.mem_append_left _ hd)
    rw [← List.append_assoc lead] at hback
    rw [hpos, backOver_step hsrc (by simp), if_pos hgap, hback]

end GlslLayout.Source
