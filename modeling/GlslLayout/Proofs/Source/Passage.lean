import GlslLayout.Proofs.Source.Reading
import GlslLayout.Source.Stripped
import Mathlib.Data.List.Basic

/-!
Kept text in front of a cut is kept in any surroundings.

* `LeadsTo`: text that the reader keeps on its way to a declaration.
* `Passes`: text that is kept whatever follows it, with a statement start behind it.
* `LeadsTo.passes`: the first kind of text is of the second kind.
* `segment_cases`, `segment_induction`: a source has no cut, or it is kept text that passes, a cut,
  and a shorter source.
* `strip_strip`: stripping a stripped source changes nothing.
-/

namespace GlslLayout.Source

set_option autoImplicit false

/-! ## Dividing from a given state -/

/-- Divides a text; `atStart` says whether a statement starts at its first character. -/
def segmentFrom (atStart : Bool) (s : List Char) : Segmentation :=
  .ofPieces (piecesFrom atStart s)

theorem piecesFrom_of_read? {atStart : Bool} {s rest : List Char} {p : Piece}
    (h : Piece.read? atStart s = some (p, rest)) :
    piecesFrom atStart s = p :: piecesFrom (p.startsAfter atStart) rest := by
  rw [piecesFrom]
  split
  · next hnone =>
    rw [hnone] at h
    cases h
  · next hsome =>
    rw [hsome] at h
    obtain ⟨rfl, rfl⟩ := Prod.mk.inj (Option.some.inj h)
    rfl

theorem segmentFrom_nil (atStart : Bool) : segmentFrom atStart [] = ⟨[], []⟩ := by
  have hread : Piece.read? atStart [] = none := Piece.read?_eq_none_iff.2 rfl
  rw [segmentFrom, piecesFrom]
  split
  · rfl
  · next hsome =>
    rw [hread] at hsome
    cases hsome

theorem segmentFrom_of_cut {s rest : List Char} {cut : Cut}
    (h : Cut.read? s = some (cut, rest)) :
    segmentFrom true s = (segmentFrom true rest).remove cut := by
  have hread : Piece.read? true s = some (.cut cut, rest) := Piece.read?_eq_cut_iff.2 ⟨rfl, h⟩
  rw [segmentFrom, piecesFrom_of_read? hread]
  rfl

theorem segmentFrom_of_comment {s text rest : List Char} (atStart : Bool)
    (h : comment? s = some (text, rest)) :
    segmentFrom atStart s = (segmentFrom atStart rest).keep text := by
  have hread : Piece.read? atStart s = some (.comment text, rest) :=
    Piece.read?_eq_comment_iff.2 h
  rw [segmentFrom, piecesFrom_of_read? hread]
  rfl

theorem segmentFrom_of_char {atStart : Bool} {c : Char} {rest : List Char}
    (hcut : atStart = true → Cut.read? (c :: rest) = none) (hcomment : comment? (c :: rest) = none) :
    segmentFrom atStart (c :: rest) =
      (segmentFrom ((Piece.char c).startsAfter atStart) rest).keep [c] := by
  have hread : Piece.read? atStart (c :: rest) = some (.char c, rest) :=
    Piece.read?_eq_char_iff.2 ⟨rfl, hcut, hcomment⟩
  rw [segmentFrom, piecesFrom_of_read? hread]
  rfl

theorem Segmentation.keep_keep (s t : List Char) (g : Segmentation) :
    (g.keep t).keep s = g.keep (s ++ t) := by
  simp [Segmentation.keep]

theorem Segmentation.keep_nil (g : Segmentation) : g.keep [] = g := rfl

theorem Segmentation.marked_keep_remove (kept : List Char) (cut : Cut) (g : Segmentation) :
    ((g.remove cut).keep kept).marked = kept ++ markLine ++ (g.head ++ g.tail) := by
  simp [Segmentation.remove, Segmentation.keep, Segmentation.tail, Segmentation.marked]

/-! ## Text in front of a cut -/

/-- `LeadsTo atStart kept tail`: reading `kept ++ tail`, all of `kept` is kept piece by piece, and
then a statement starts in front of `tail`, which is read as a declaration. -/
inductive LeadsTo : Bool → List Char → List Char → Prop where
  | cut {tail : List Char} (h : (Cut.read? tail).isSome = true) : LeadsTo true [] tail
  | comment {atStart : Bool} {text kept tail : List Char}
      (h : comment? (text ++ (kept ++ tail)) = some (text, kept ++ tail))
      (next : LeadsTo atStart kept tail) : LeadsTo atStart (text ++ kept) tail
  | char {atStart : Bool} {c : Char} {kept tail : List Char}
      (hcut : atStart = true → Cut.read? (c :: (kept ++ tail)) = none)
      (hcomment : comment? (c :: (kept ++ tail)) = none)
      (next : LeadsTo ((Piece.char c).startsAfter atStart) kept tail) :
      LeadsTo atStart (c :: kept) tail

/-- Text that is kept as a whole whatever follows it, with a statement start behind it. -/
def Passes (atStart : Bool) (kept : List Char) : Prop :=
  ∀ t, segmentFrom atStart (kept ++ t) = (segmentFrom true t).keep kept

/-! ## Where no declaration is read, whatever follows -/

/-- Behind its gaps the text goes on, and if it goes on with a word, a boundary follows the word. So
a word at its start is decided inside the text. -/
def Settles (v : List Char) : Prop :=
  ∃ c more, v.dropWhile isGap = c :: more ∧
    (isWordChar c = true → ∃ x ∈ more, isBoundary x = true)

theorem Cut.readBody?_append_eq_none {v t₀ lead lead' : List Char} {q : Qualifier}
    (hstop : ∃ x ∈ v, isBoundary x = true) (hsemi : ';' ∈ t₀)
    (h : Cut.readBody? lead q (v ++ t₀) = none) (t : List Char) :
    Cut.readBody? lead' q (v ++ t) = none := by
  obtain ⟨x, hx, hb⟩ := hstop
  have hgap : ∃ x ∈ v, isGap x = false := ⟨x, hx, not_isGap_of_isBoundary hb⟩
  have hmem := Text.mem_dropWhile_of_stop hx (not_isGap_of_isBoundary hb)
  obtain ⟨c, more, hdrop⟩ := List.exists_cons_of_ne_nil (List.ne_nil_of_mem hmem)
  have hsemicolon : c = ';' := by
    by_contra hc
    -- otherwise there is a body, and its semicolon follows in `t₀` at the latest
    have hbody : ((c :: more ++ t₀).takeWhile (· != ';')) ≠ [] := by simp [hc]
    have htail : ((c :: more ++ t₀).dropWhile (· != ';')) ≠ [] := by
      have hin : ';' ∈ c :: more ++ t₀ := List.mem_append_right _ hsemi
      exact List.ne_nil_of_mem (Text.mem_dropWhile_of_stop (p := (· != ';')) hin (by simp))
    simp only [Cut.readBody?, Text.dropWhile_append_stop hgap, hdrop, Bool.or_eq_true,
      List.isEmpty_iff, hbody, htail, or_self, if_false] at h
    cases h
  simp only [Cut.readBody?, Text.dropWhile_append_stop hgap, hdrop, hsemicolon]
  simp

theorem Settles.read?_eq_none {v t₀ : List Char} (hv : Settles v) (hsemi : ';' ∈ t₀)
    (h : Cut.read? (v ++ t₀) = none) (t : List Char) : Cut.read? (v ++ t) = none := by
  obtain ⟨c, more, hdrop, hword⟩ := hv
  have hcgap : isGap c = false := Text.head?_dropWhile_eq_false (l := v) (by rw [hdrop]; rfl)
  have hcmem : c ∈ v := (List.dropWhile_sublist isGap).subset (by rw [hdrop]; simp)
  have hgap : ∃ x ∈ v, isGap x = false := ⟨c, hcmem, hcgap⟩
  cases hc : isWordChar c with
  | false =>
    have hnone : Qualifier.ofWord? [] = none := by decide
    simp only [Cut.read?, Text.dropWhile_append_stop hgap, hdrop, List.cons_append]
    rw [List.takeWhile_cons_of_neg (by simp [hc]), hnone]
  | true =>
    obtain ⟨x, hx, hb⟩ := hword hc
    have hxmem : x ∈ c :: more := List.mem_cons_of_mem c hx
    have hxword := not_isWordChar_of_isBoundary hb
    have hstop : ∃ x ∈ c :: more, isWordChar x = false := ⟨x, hxmem, hxword⟩
    have hrest : ∃ x ∈ (c :: more).dropWhile isWordChar, isBoundary x = true :=
      ⟨x, Text.mem_dropWhile_of_stop hxmem hxword, hb⟩
    simp only [Cut.read?, Text.dropWhile_append_stop hgap, hdrop,
      Text.takeWhile_append_stop hstop, Text.dropWhile_append_stop hstop] at h ⊢
    split at h
    · rfl
    · exact Cut.readBody?_append_eq_none hrest hsemi h t

namespace LeadsTo

theorem isSome_read? {atStart : Bool} {kept tail : List Char} (h : LeadsTo atStart kept tail) :
    (Cut.read? tail).isSome = true := by
  induction h with
  | cut h => exact h
  | comment _ _ ih => exact ih
  | char _ _ _ ih => exact ih

theorem semicolon_mem {atStart : Bool} {kept tail : List Char} (h : LeadsTo atStart kept tail) :
    ';' ∈ tail := by
  obtain ⟨⟨cut, rest⟩, hread⟩ := Option.isSome_iff_exists.1 h.isSome_read?
  obtain ⟨rfl, wf, -⟩ := Cut.read?_eq_some_iff.1 hread
  obtain ⟨c, stops, hstops⟩ := List.exists_cons_of_ne_nil wf.stops_ne_nil
  have hc : c = ';' := wf.stops c (by simp [hstops])
  simp [Cut.toList, hstops, hc]

/-- The text that follows the kept text starts with neither a line break nor nothing. -/
theorem tail_head {atStart : Bool} {kept tail : List Char} (h : LeadsTo atStart kept tail) :
    ∃ c more, tail = c :: more ∧ c ≠ '\n' := by
  obtain ⟨⟨cut, rest⟩, hread⟩ := Option.isSome_iff_exists.1 h.isSome_read?
  cases tail with
  | nil => exact absurd h.semicolon_mem (by simp)
  | cons c more =>
    refine ⟨c, more, rfl, ?_⟩
    rintro rfl
    have hnone : Cut.read? ('\n' :: more) = none :=
      Cut.read?_eq_none_of_head (by decide) (by decide)
    rw [hnone] at hread
    cases hread

/-- A comment in front of a cut is followed by kept text if it ends with its line. -/
theorem whole_or_break {text kept tail : List Char}
    (h : comment? (text ++ (kept ++ tail)) = some (text, kept ++ tail)) {atStart : Bool}
    (next : LeadsTo atStart kept tail) :
    (∀ t, comment? (text ++ t) = some (text, t)) ∨
      (∃ more, kept = '\n' :: more) ∧ ∀ t, comment? (text ++ (kept ++ t)) = some (text, kept ++ t) := by
  obtain ⟨c, more, rfl, hc⟩ := next.tail_head
  rcases comment?_whole_or_break h (by simp) with hwhole | ⟨hbreak, hline⟩
  · exact Or.inl hwhole
  · right
    cases kept with
    | nil =>
      rw [List.nil_append, List.head?_cons, Option.some.injEq] at hbreak
      exact absurd hbreak hc
    | cons d kept =>
      rw [List.cons_append, List.head?_cons, Option.some.injEq] at hbreak
      subst hbreak
      exact ⟨⟨kept, rfl⟩, fun t => hline (kept ++ t)⟩

/-- A comment in front of a cut is read as the same comment whatever follows the kept text. -/
theorem comment?_append {text kept tail : List Char}
    (h : comment? (text ++ (kept ++ tail)) = some (text, kept ++ tail)) {atStart : Bool}
    (next : LeadsTo atStart kept tail) (t : List Char) :
    comment? (text ++ (kept ++ t)) = some (text, kept ++ t) := by
  rcases next.whole_or_break h with hwhole | ⟨-, hline⟩
  · exact hwhole (kept ++ t)
  · exact hline t

/-- Where no statement starts, one can only start again behind a boundary. -/
theorem boundary_mem {kept tail : List Char} (h : LeadsTo false kept tail) :
    ∃ x ∈ kept, isBoundary x = true := by
  generalize hstart : false = atStart at h
  induction h with
  | cut _ => cases hstart
  | comment _ _ ih =>
    obtain ⟨x, hx, hb⟩ := ih hstart
    exact ⟨x, List.mem_append_right _ hx, hb⟩
  | @char atStart c kept tail _ _ _ ih =>
    subst hstart
    cases hb : isBoundary c with
    | true => exact ⟨c, by simp, hb⟩
    | false =>
      obtain ⟨x, hx, hxb⟩ := ih (by simp [Piece.startsAfter, hb])
      exact ⟨x, List.mem_cons_of_mem c hx, hxb⟩

theorem atStart_of_nil {atStart : Bool} {tail : List Char} (h : LeadsTo atStart [] tail) :
    atStart = true := by
  cases atStart with
  | true => rfl
  | false => exact absurd h.boundary_mem (by simp)

/-- A character in front of a cut opens no comment whatever follows the kept text. -/
theorem comment?_cons_append {atStart : Bool} {c : Char} {kept tail : List Char}
    (h : comment? (c :: (kept ++ tail)) = none)
    (next : LeadsTo ((Piece.char c).startsAfter atStart) kept tail) (t : List Char) :
    comment? (c :: (kept ++ t)) = none := by
  cases kept with
  | nil =>
    -- a slash in front of the cut would not leave a statement start
    rw [comment?_cons_eq_none_iff]
    rintro rfl
    have hslash : (Piece.char '/').startsAfter atStart = false := by
      cases atStart <;> decide
    rw [next.atStart_of_nil] at hslash
    cases hslash
  | cons d kept =>
    rw [comment?_cons_eq_none_iff] at h ⊢
    exact h

theorem settles {kept tail : List Char} (h : LeadsTo true kept tail) :
    kept = [] ∨ Settles kept := by
  generalize hstart : true = atStart at h
  induction h with
  | cut _ => exact Or.inl rfl
  | @comment atStart text kept tail h next _ =>
    right
    have hne := ne_nil_of_comment? h
    obtain ⟨c, text, rfl⟩ := List.exists_cons_of_ne_nil hne
    obtain ⟨more, hmore⟩ := comment?_head h
    obtain ⟨rfl, -⟩ := List.cons.inj hmore
    exact ⟨'/', text ++ kept, rfl, fun hword => absurd hword (by decide)⟩
  | @char atStart c kept tail hcut hcomment next ih =>
    right
    subst hstart
    cases hgap : isGap c with
    | true =>
      have hstart : (Piece.char c).startsAfter true = true := by
        simp [Piece.startsAfter, isIndent, hgap]
      rcases ih hstart.symm with rfl | ⟨d, more, hdrop, hword⟩
      · -- a gap directly in front of the cut would have been cut with it
        exact absurd (hcut rfl) (Cut.read?_cons_gap_ne_none hgap next.isSome_read?)
      · exact ⟨d, more, by rw [List.dropWhile_cons_of_pos hgap, hdrop], hword⟩
    | false =>
      refine ⟨c, kept, List.dropWhile_cons_of_neg (by simp [hgap]), fun hword => ?_⟩
      have hbound : isBoundary c = false := by
        rw [Bool.eq_false_iff]
        intro hb
        rw [not_isWordChar_of_isBoundary hb] at hword
        cases hword
      have hstart : (Piece.char c).startsAfter true = false := by
        simp [Piece.startsAfter, hbound, not_isIndent_of_isWordChar hword]
      rw [hstart] at next
      exact next.boundary_mem

/-- Kept text in front of a cut ends with a boundary, a carriage return or a comment. In particular
it does not end with a gap, which the cut takes with it. -/
theorem getLast?_cases {atStart : Bool} {kept tail : List Char} (h : LeadsTo atStart kept tail) :
    ∀ c ∈ kept.getLast?, isBoundary c = true ∨ c = '\r' ∨ c = '/' := by
  induction h with
  | cut _ => simp
  | @comment atStart text kept tail h next ih =>
    intro c hc
    cases kept with
    | nil =>
      rcases next.whole_or_break h with hwhole | ⟨⟨more, hmore⟩, -⟩
      · rw [List.append_nil, getLast?_of_whole hwhole] at hc
        exact Or.inr (Or.inr (Option.mem_some_iff.1 hc).symm)
      · cases hmore
    | cons d kept =>
      rw [List.getLast?_append_of_ne_nil text (by simp)] at hc
      exact ih c hc
  | @char atStart d kept tail hcut hcomment next ih =>
    intro c hc
    cases kept with
    | cons e kept =>
      rw [List.getLast?_cons_cons] at hc
      exact ih c hc
    | nil =>
      obtain rfl : d = c := by simpa using hc
      have hstart := next.atStart_of_nil
      simp only [Piece.startsAfter, isIndent, Bool.or_eq_true, Bool.and_eq_true] at hstart
      rcases hstart with hb | ⟨hstart, hgap | hr⟩
      · exact Or.inl hb
      · exact absurd (hcut hstart) (Cut.read?_cons_gap_ne_none hgap next.isSome_read?)
      · exact Or.inr (Or.inl (beq_iff_eq.1 hr))

theorem getLast?_not_isGap {atStart : Bool} {kept tail : List Char}
    (h : LeadsTo atStart kept tail) : ∀ c ∈ kept.getLast?, isGap c = false := by
  intro c hc
  rcases h.getLast?_cases c hc with hb | rfl | rfl
  · exact not_isGap_of_isBoundary hb
  · decide
  · decide

theorem getLast?_not_mem_mark {atStart : Bool} {kept tail : List Char}
    (h : LeadsTo atStart kept tail) : ∀ c ∈ kept.getLast?, c ∉ mark.toList := by
  intro c hc
  rcases h.getLast?_cases c hc with hb | rfl | rfl
  · rcases isBoundary_cases hb with rfl | rfl | rfl | rfl <;> decide
  · decide
  · decide

/-- Text on the way to a cut is kept in the same way whatever follows it. -/
theorem passes {atStart : Bool} {kept tail : List Char} (h : LeadsTo atStart kept tail) :
    Passes atStart kept := by
  induction h with
  | cut _ => exact fun t => (Segmentation.keep_nil _).symm
  | @comment atStart text kept tail h next ih =>
    intro t
    rw [List.append_assoc, segmentFrom_of_comment atStart (next.comment?_append h t), ih t,
      Segmentation.keep_keep]
  | @char atStart c kept tail hcut hcomment next ih =>
    intro t
    have hread : atStart = true → Cut.read? (c :: (kept ++ t)) = none := by
      rintro rfl
      have hleads : LeadsTo true (c :: kept) tail := .char hcut hcomment next
      rcases hleads.settles with hnil | hsettles
      · cases hnil
      · exact hsettles.read?_eq_none hleads.semicolon_mem (hcut rfl) t
    have hopen := comment?_cons_append hcomment next t
    rw [List.cons_append, segmentFrom_of_char hread hopen, ih t, Segmentation.keep_keep]
    rfl

end LeadsTo

/-! ## Sources as kept text and cuts in turn -/

theorem plain_or_leadsTo (atStart : Bool) (s : List Char) :
    segmentFrom atStart s = ⟨s, []⟩ ∨
      ∃ kept cut rest, s = kept ++ (cut.toList ++ rest) ∧ LeadsTo atStart kept (cut.toList ++ rest) ∧
        Cut.read? (cut.toList ++ rest) = some (cut, rest) := by
  fun_induction piecesFrom atStart s with
  | case1 atStart s h =>
    left
    obtain rfl := Piece.read?_eq_none_iff.1 h
    exact segmentFrom_nil atStart
  | case2 atStart s p rest h _ ih =>
    cases p with
    | cut cut =>
      obtain ⟨rfl, hcut⟩ := Piece.read?_eq_cut_iff.1 h
      have hs := (Cut.toList_read? hcut).symm
      subst hs
      exact Or.inr ⟨[], cut, rest, rfl, .cut (by rw [hcut]; rfl), hcut⟩
    | comment text =>
      have hcomment := Piece.read?_eq_comment_iff.1 h
      have hs := (append_of_comment? hcomment).symm
      subst hs
      rcases ih with hplain | ⟨kept, cut, tail, rfl, hleads, hcut⟩
      · left
        have hplain : segmentFrom atStart rest = ⟨rest, []⟩ := hplain
        rw [segmentFrom_of_comment atStart hcomment, hplain]
        rfl
      · exact Or.inr ⟨text ++ kept, cut, tail, by simp, .comment hcomment hleads, hcut⟩
    | char c =>
      obtain ⟨rfl, hcut, hcomment⟩ := Piece.read?_eq_char_iff.1 h
      rcases ih with hplain | ⟨kept, cut, tail, rfl, hleads, hread⟩
      · left
        rw [segmentFrom_of_char hcut hcomment, hplain]
        rfl
      · exact Or.inr ⟨c :: kept, cut, tail, by simp, .char hcut hcomment hleads, hread⟩

/-- A source has no cut, or it is kept text, its first cut, and the rest. -/
theorem segment_cases (s : List Char) :
    segment s = ⟨s, []⟩ ∨
      ∃ kept cut rest, s = kept ++ (cut.toList ++ rest) ∧ LeadsTo true kept (cut.toList ++ rest) ∧
        Cut.read? (cut.toList ++ rest) = some (cut, rest) ∧
        segment s = ((segment rest).remove cut).keep kept := by
  rcases plain_or_leadsTo true s with hplain | ⟨kept, cut, rest, rfl, hleads, hread⟩
  · exact Or.inl hplain
  · have hsegment := hleads.passes (cut.toList ++ rest)
    rw [segmentFrom_of_cut hread] at hsegment
    exact Or.inr ⟨kept, cut, rest, rfl, hleads, hread, hsegment⟩

/-- What a source is made of, one cut at a time. -/
theorem segment_induction {motive : List Char → Prop}
    (plain : ∀ s, segment s = ⟨s, []⟩ → motive s)
    (cut : ∀ kept cut rest, LeadsTo true kept (cut.toList ++ rest) →
      Cut.read? (cut.toList ++ rest) = some (cut, rest) →
      segment (kept ++ (cut.toList ++ rest)) = ((segment rest).remove cut).keep kept →
      motive rest → motive (kept ++ (cut.toList ++ rest)))
    (s : List Char) : motive s := by
  induction hn : s.length using Nat.strong_induction_on generalizing s with
  | _ n ih =>
    rcases segment_cases s with hplain | ⟨kept, found, rest, rfl, hleads, hread, hsegment⟩
    · exact plain s hplain
    · have hlt := Cut.length_lt_of_read? hread
      refine cut kept found rest hleads hread hsegment (ih rest.length ?_ rest rfl)
      rw [← hn, List.length_append]
      omega

/-! ## Stripping twice -/

theorem Passes.append {atStart : Bool} {s t : List Char} (hs : Passes atStart s)
    (ht : Passes true t) : Passes atStart (s ++ t) := by
  intro u
  rw [List.append_assoc, hs (t ++ u), ht u, Segmentation.keep_keep]

/-- A character that is neither gap nor part of a word, and that opens no comment, is kept. -/
theorem segmentFrom_cons {c : Char} (atStart : Bool) (hgap : isGap c = false)
    (hword : isWordChar c = false) (hslash : c ≠ '/') (t : List Char) :
    segmentFrom atStart (c :: t) =
      (segmentFrom ((Piece.char c).startsAfter atStart) t).keep [c] := by
  refine segmentFrom_of_char (fun _ => Cut.read?_eq_none_of_head hgap hword) ?_
  rw [comment?_cons_eq_none_iff]
  exact fun h => absurd h hslash

theorem passes_boundary {c : Char} (h : isBoundary c = true) (atStart : Bool) :
    Passes atStart [c] := by
  intro t
  have hslash : c ≠ '/' := by
    rintro rfl
    revert h
    decide
  rw [List.singleton_append, segmentFrom_cons atStart (not_isGap_of_isBoundary h)
    (not_isWordChar_of_isBoundary h) hslash]
  simp [Piece.startsAfter, h]

theorem passes_lineBreak (atStart : Bool) : Passes atStart ['\n'] :=
  passes_boundary (by decide) atStart

theorem passes_markLine : Passes true markLine := by
  have hat : ∀ (atStart : Bool) (t : List Char),
      segmentFrom atStart ('@' :: t) = (segmentFrom false t).keep ['@'] := by
    intro atStart t
    have hstart : (Piece.char '@').startsAfter atStart = false := by cases atStart <;> decide
    rw [segmentFrom_cons atStart (by decide) (by decide) (by decide), hstart]
  intro t
  have hline : markLine ++ t = '@' :: '@' :: '@' :: (['\n'] ++ t) := rfl
  rw [hline, hat, hat, hat, passes_lineBreak false t, Segmentation.keep_keep,
    Segmentation.keep_keep, Segmentation.keep_keep]
  rfl

theorem segment_kept (s : List Char) :
    segment ((segment s).head ++ (segment s).tail) =
      ⟨(segment s).head ++ (segment s).tail, []⟩ := by
  induction s using segment_induction with
  | plain s h =>
    rw [h]
    simpa [Segmentation.tail] using h
  | cut kept cut rest hleads _ h ih =>
    have hkept : (segment (kept ++ (cut.toList ++ rest))).head ++
        (segment (kept ++ (cut.toList ++ rest))).tail =
        kept ++ ((segment rest).head ++ (segment rest).tail) := by
      rw [h]
      simp [Segmentation.remove, Segmentation.keep, Segmentation.tail]
    rw [hkept]
    calc segment (kept ++ ((segment rest).head ++ (segment rest).tail))
        = (segment ((segment rest).head ++ (segment rest).tail)).keep kept := hleads.passes _
      _ = ⟨kept ++ ((segment rest).head ++ (segment rest).tail), []⟩ := by rw [ih]; rfl

theorem segment_marked (s : List Char) :
    segment (segment s).marked = ⟨(segment s).marked, []⟩ := by
  induction s using segment_induction with
  | plain s h =>
    rw [h]
    exact h
  | cut kept cut rest hleads _ h _ =>
    rw [h, Segmentation.marked_keep_remove]
    calc segment (kept ++ markLine ++ ((segment rest).head ++ (segment rest).tail))
        = (segment ((segment rest).head ++ (segment rest).tail)).keep (kept ++ markLine) :=
          (hleads.passes.append passes_markLine) _
      _ = ⟨kept ++ markLine ++ ((segment rest).head ++ (segment rest).tail), []⟩ := by
          rw [segment_kept]; rfl

theorem toList_text_strip (source : String) :
    (strip source).text.toList = (segment source.toList).marked :=
  String.toList_ofList

/-- Stripping a stripped source finds no declaration and changes nothing. -/
theorem strip_strip (source : String) :
    strip (strip source).text = ⟨(strip source).text, [], [], [], []⟩ := by
  have hplain := segment_marked source.toList
  rw [← toList_text_strip] at hplain
  rw [strip, hplain]
  simp [Segmentation.stripped, Segmentation.marked, Segmentation.declarations,
    Segmentation.bodies]

end GlslLayout.Source
