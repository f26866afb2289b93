import GlslLayout.Text.Blank
import GlslLayout.Text.Numeral
import GlslLayout.Text.Search
import Mathlib.Data.List.Infix
import Mathlib.Data.List.TakeWhile

/-!
Facts about plain text: runs of characters, first occurrences, trimming, words, lines and numerals.

* `range_of_isAlphanum`: letters and digits are characters of ASCII.
* `takeWhile_append_run`, `dropWhile_append_run`: a run that ends where the next text begins.
* `takeWhile_append_stop`, `dropWhile_append_stop`: a run that ends inside the first text.
* `occurs_iff_infix`: a pattern is found exactly when the text contains it.
* `breakOn_append`: where the first occurrence stands.
* `append_mark_inj`, `append_lastMark_inj`: a text is cut at its first or last mark in one way only.
* `trim_eq_self`: text without white space at its ends is trimmed already.
* `not_isBlank_of_mem_words`: words hold no white space.
* `words_word_append`, `words_blanks_append`: the words of a text that is put together.
* `joinWords_words_gap`: words that are joined again keep white space where it was.
* `unspaced_joinWords_words`: and they keep everything else.
* `lines`, `lines_append_lineBreak`: the lines of a text.
* `numeral?_toString`, `readCount?_toString`: a number is read back from its digits.
-/

namespace GlslLayout.Text

set_option autoImplicit false

/-! ## Characters -/

theorem range_of_isAlphanum {c : Char} (h : c.isAlphanum = true) :
    48 ≤ c.toNat ∧ c.toNat ≤ 122 := by
  have hbounds : ∀ {low high : UInt32}, 48 ≤ low.toNat → high.toNat ≤ 122 → low ≤ c.val →
      c.val ≤ high → 48 ≤ c.toNat ∧ c.toNat ≤ 122 := fun hlow hhigh hfrom hto =>
    ⟨hlow.trans (UInt32.le_iff_toNat_le.1 hfrom), (UInt32.le_iff_toNat_le.1 hto).trans hhigh⟩
  rcases Bool.or_eq_true_iff.1 h with hletter | hdigit
  · rcases Bool.or_eq_true_iff.1 hletter with hupper | hlower
    · obtain ⟨hfrom, hto⟩ := of_decide_eq_true hupper
      exact hbounds (by decide) (by decide) hfrom hto
    · obtain ⟨hfrom, hto⟩ := Bool.and_eq_true_iff.1 hlower
      exact hbounds (by decide) (by decide) (of_decide_eq_true hfrom) (of_decide_eq_true hto)
  · obtain ⟨hfrom, hto⟩ := Bool.and_eq_true_iff.1 hdigit
    exact hbounds (by decide) (by decide) (of_decide_eq_true hfrom) (of_decide_eq_true hto)

/-! ## Runs -/

section Runs

variable {α : Type} {p : α → Bool} {l r : List α}

theorem takeWhile_eq_nil_of_head (h : ∀ x ∈ r.head?, p x = false) : r.takeWhile p = [] := by
  cases r with
  | nil => rfl
  | cons x r => exact List.takeWhile_cons_of_neg (by simp [h x (by simp)])

theorem dropWhile_eq_self_of_head (h : ∀ x ∈ r.head?, p x = false) : r.dropWhile p = r := by
  cases r with
  | nil => rfl
  | cons x r => exact List.dropWhile_cons_of_neg (by simp [h x (by simp)])

theorem takeWhile_append_run (hl : ∀ x ∈ l, p x = true) (hr : ∀ x ∈ r.head?, p x = false) :
    (l ++ r).takeWhile p = l := by
  rw [List.takeWhile_append_of_pos hl, takeWhile_eq_nil_of_head hr, List.append_nil]

theorem dropWhile_append_run (hl : ∀ x ∈ l, p x = true) (hr : ∀ x ∈ r.head?, p x = false) :
    (l ++ r).dropWhile p = r := by
  rw [List.dropWhile_append_of_pos hl, dropWhile_eq_self_of_head hr]

theorem takeWhile_append_stop (h : ∃ x ∈ l, p x = false) (r : List α) :
    (l ++ r).takeWhile p = l.takeWhile p := by
  induction l with
  | nil => simp at h
  | cons a l ih =>
    rw [List.cons_append, List.takeWhile_cons, List.takeWhile_cons]
    cases ha : p a with
    | false => rfl
    | true =>
      have hstop : ∃ x ∈ l, p x = false := by
        obtain ⟨x, hx, hpx⟩ := h
        rcases List.mem_cons.1 hx with rfl | hx
        · rw [ha] at hpx
          cases hpx
        · exact ⟨x, hx, hpx⟩
      simp [ih hstop]

theorem dropWhile_append_stop (h : ∃ x ∈ l, p x = false) (r : List α) :
    (l ++ r).dropWhile p = l.dropWhile p ++ r := by
  have hall := List.takeWhile_append_dropWhile (p := p) (l := l ++ r)
  have hleft := List.takeWhile_append_dropWhile (p := p) (l := l)
  rw [takeWhile_append_stop h r] at hall
  apply (List.append_right_inj (l.takeWhile p)).1
  rw [hall, ← List.append_assoc, hleft]

/-- What stops a run stays in the text behind it. -/
theorem mem_dropWhile_of_stop {x : α} (hx : x ∈ l) (hp : p x = false) : x ∈ l.dropWhile p := by
  have hmem : x ∈ l.takeWhile p ++ l.dropWhile p := by
    rw [List.takeWhile_append_dropWhile]
    exact hx
  rcases List.mem_append.1 hmem with h | h
  · have hpos := List.mem_takeWhile_imp h
    rw [hp] at hpos
    cases hpos
  · exact h

theorem head?_dropWhile_eq_false {x : α} (h : x ∈ (l.dropWhile p).head?) : p x = false := by
  have hnot := List.head?_dropWhile_not p l
  rw [Option.mem_def.1 h] at hnot
  exact hnot

end Runs

/-! ## First occurrences -/

theorem isPrefixOf_append_iff {pattern s : List Char} :
    pattern.isPrefixOf s = true ↔ ∃ t, s = pattern ++ t := by
  rw [List.isPrefixOf_iff_prefix]
  exact ⟨fun ⟨t, h⟩ => ⟨t, h.symm⟩, fun ⟨t, h⟩ => ⟨t, h.symm⟩⟩

theorem occurs_iff_infix {pattern s : List Char} : occurs pattern s = true ↔ pattern <:+: s := by
  constructor
  · intro h
    obtain ⟨⟨before, after⟩, hparts⟩ := Option.isSome_iff_exists.1 h
    exact ⟨before, after, (eq_of_breakOn hparts).symm⟩
  · rintro ⟨before, after, rfl⟩
    induction before with
    | nil =>
      rw [List.nil_append, occurs]
      cases hs : pattern ++ after with
      | nil => simp [breakOn, (List.append_eq_nil_iff.1 hs).1]
      | cons c s =>
        have hp : pattern.isPrefixOf (c :: s) = true := isPrefixOf_append_iff.2 ⟨after, hs.symm⟩
        simp [breakOn, hp]
    | cons c before ih =>
      rw [occurs, List.cons_append, List.cons_append, breakOn]
      split
      · rfl
      · rw [Option.isSome_map]
        exact ih

/-- Behind text that does not contain the pattern, and whose last character is not one of the
pattern, the first occurrence is where the pattern was put. -/
theorem breakOn_append {pattern before : List Char} (after : List Char)
    (hfresh : ¬ pattern <:+: before) (hlast : ∀ c ∈ before.getLast?, c ∉ pattern) :
    breakOn pattern (before ++ (pattern ++ after)) = some (before, after) := by
  induction before with
  | nil =>
    cases hs : pattern ++ after with
    | nil =>
      exact absurd (by simp [(List.append_eq_nil_iff.1 hs).1]) hfresh
    | cons c s =>
      have hp : pattern.isPrefixOf (c :: s) = true := isPrefixOf_append_iff.2 ⟨after, hs.symm⟩
      rw [List.nil_append, breakOn, if_pos hp, ← hs, List.drop_left]
  | cons c before ih =>
    have hnot : ¬ pattern <+: c :: before ++ (pattern ++ after) := by
      intro hprefix
      rcases List.prefix_or_prefix_of_prefix hprefix (List.prefix_append _ _) with h | h
      · exact hfresh h.isInfix
      · have hmem := List.getLast_mem (List.cons_ne_nil c before)
        exact hlast _ (List.getLast?_eq_getLast_of_ne_nil (List.cons_ne_nil c before))
          (h.subset hmem)
    have hp : ¬ pattern.isPrefixOf (c :: (before ++ (pattern ++ after))) = true := by
      rw [List.isPrefixOf_iff_prefix]
      exact hnot
    have hrec : breakOn pattern (before ++ (pattern ++ after)) = some (before, after) := by
      apply ih
      · exact fun h => hfresh (h.trans (List.suffix_cons c before).isInfix)
      · intro d hd
        refine hlast d ?_
        cases before with
        | nil => cases hd
        | cons e before => rwa [List.getLast?_cons_cons]
    rw [List.cons_append, breakOn, if_neg hp, hrec]
    rfl

/-! ## Marks -/

theorem append_mark_inj {s t u v : List Char} {c : Char} (hs : c ∉ s) (ht : c ∉ t)
    (h : s ++ c :: u = t ++ c :: v) : s = t ∧ u = v := by
  have hrun : ∀ l : List Char, c ∉ l → ∀ x ∈ l, (x != c) = true := by
    intro l hl x hx
    rw [bne_iff_ne]
    rintro rfl
    exact hl hx
  have htake := congrArg (List.takeWhile (· != c)) h
  rw [takeWhile_append_run (hrun s hs) (by simp), takeWhile_append_run (hrun t ht) (by simp)] at htake
  rw [htake] at h
  exact ⟨htake, (List.cons.inj (List.append_cancel_left h)).2⟩

theorem append_lastMark_inj {s t u v : List Char} {c : Char} (hu : c ∉ u) (hv : c ∉ v)
    (h : s ++ c :: u = t ++ c :: v) : s = t ∧ u = v := by
  have hreverse := congrArg List.reverse h
  simp only [List.reverse_append, List.reverse_cons, List.append_assoc, List.singleton_append]
    at hreverse
  obtain ⟨huv, hst⟩ := append_mark_inj (by simpa using hu) (by simpa using hv) hreverse
  exact ⟨List.reverse_injective hst, List.reverse_injective huv⟩

/-! ## Trimming -/

theorem isPrefix_trimEnd (s : List Char) : trimEnd s <+: s := by
  have h := (List.dropWhile_suffix (l := s.reverse) isBlank)
  rw [← List.reverse_prefix, List.reverse_reverse] at h
  exact h

theorem mem_of_mem_trim {s : List Char} {c : Char} (h : c ∈ trim s) : c ∈ s :=
  (List.dropWhile_sublist isBlank).subset ((isPrefix_trimEnd _).subset h)

theorem mem_trim_of_mem {s : List Char} {c : Char} (hc : isBlank c = false) (h : c ∈ s) :
    c ∈ trim s := by
  rw [trim, trimEnd, List.mem_reverse]
  exact mem_dropWhile_of_stop (List.mem_reverse.2 (mem_dropWhile_of_stop h hc)) hc

theorem head?_trim {s : List Char} {c : Char} (h : c ∈ (trim s).head?) : isBlank c = false := by
  obtain ⟨t, ht⟩ := isPrefix_trimEnd (s.dropWhile isBlank)
  apply head?_dropWhile_eq_false (p := isBlank) (l := s)
  rw [← ht, List.head?_append]
  rw [show trimEnd (s.dropWhile isBlank) = trim s from rfl, Option.mem_def.1 h]
  rfl

theorem getLast?_trim {s : List Char} {c : Char} (h : c ∈ (trim s).getLast?) :
    isBlank c = false := by
  rw [trim, trimEnd, List.getLast?_reverse] at h
  exact head?_dropWhile_eq_false h

theorem trim_eq_self {s : List Char} (hhead : ∀ c ∈ s.head?, isBlank c = false)
    (hlast : ∀ c ∈ s.getLast?, isBlank c = false) : trim s = s := by
  have hend : s.reverse.dropWhile isBlank = s.reverse := by
    apply dropWhile_eq_self_of_head
    rwa [List.head?_reverse]
  rw [trim, trimEnd, dropWhile_eq_self_of_head hhead, hend, List.reverse_reverse]

theorem trim_blanks_append {g w h : List Char} (hg : ∀ c ∈ g, isBlank c = true)
    (hw : ∀ c ∈ w, isBlank c = false) (hh : ∀ c ∈ h, isBlank c = true) :
    trim (g ++ (w ++ h)) = w := by
  have hend : (w ++ h).reverse.dropWhile isBlank = w.reverse := by
    rw [List.reverse_append, List.dropWhile_append_of_pos (by simpa using hh)]
    apply dropWhile_eq_self_of_head
    intro c hc
    exact hw c (List.mem_reverse.1 (List.mem_of_mem_head? hc))
  rw [trim, List.dropWhile_append_of_pos hg]
  cases w with
  | nil =>
    have hnone : h.dropWhile isBlank = [] := List.dropWhile_eq_nil_iff.2 hh
    rw [List.nil_append, hnone]
    rfl
  | cons c w =>
    rw [dropWhile_eq_self_of_head (by simp [hw c (by simp)]), trimEnd, hend, List.reverse_reverse]

theorem trim_trim (s : List Char) : trim (trim s) = trim s :=
  trim_eq_self (fun _ h => head?_trim h) (fun _ h => getLast?_trim h)

/-! ## Words -/

theorem not_mem_of_mem_splitOnP {α : Type} {p : α → Bool} {s w : List α} (hw : w ∈ s.splitOnP p) :
    ∀ x ∈ w, p x = false := by
  induction s generalizing w with
  | nil =>
    rw [List.splitOnP_nil, List.mem_singleton] at hw
    simp [hw]
  | cons a s ih =>
    rw [List.splitOnP_cons_eq_if_modifyHead] at hw
    split at hw
    · rcases List.mem_cons.1 hw with rfl | hw
      · simp
      · exact ih hw
    · next ha =>
      -- the first word of the rest gets the character in front
      obtain ⟨first, others, hsplit⟩ := List.exists_cons_of_ne_nil (List.splitOnP_ne_nil p s)
      rw [hsplit] at hw ih
      rcases List.mem_cons.1 hw with rfl | hw
      · intro x hx
        rcases List.mem_cons.1 hx with rfl | hx
        · simpa using ha
        · exact ih (by simp) x hx
      · exact ih (List.mem_cons_of_mem first hw)

theorem not_isBlank_of_mem_words {s w : List Char} (hw : w ∈ words s) :
    ∀ c ∈ w, isBlank c = false :=
  not_mem_of_mem_splitOnP (List.mem_filter.1 hw).1

theorem words_cons_blank {c : Char} (hc : isBlank c = true) (s : List Char) :
    words (c :: s) = words s := by
  rw [words, List.splitOnP_cons_eq_if_modifyHead, if_pos hc]
  rfl

theorem words_blanks_append {g : List Char} (hg : ∀ c ∈ g, isBlank c = true) (s : List Char) :
    words (g ++ s) = words s := by
  induction g with
  | nil => rfl
  | cons c g ih =>
    rw [List.cons_append, words_cons_blank (hg c (by simp))]
    exact ih fun d hd => hg d (List.mem_cons_of_mem c hd)

theorem words_blanks {g : List Char} (hg : ∀ c ∈ g, isBlank c = true) : words g = [] := by
  have h := words_blanks_append hg []
  rwa [List.append_nil, words_nil] at h

/-- A word ends where the text ends or white space follows. -/
theorem words_word_append {v s : List Char} (hne : v ≠ []) (hv : ∀ c ∈ v, isBlank c = false)
    (hs : ∀ c ∈ s.head?, isBlank c = true) : words (v ++ s) = v :: words s := by
  cases s with
  | nil =>
    rw [List.append_nil, words, List.splitOnP_eq_singleton hv, words_nil]
    simp [hne]
  | cons c s =>
    have hc : isBlank c = true := hs c rfl
    rw [words_cons_blank hc, words, List.splitOnP_append_cons_of_forall_mem hv c hc]
    simp [words, hne]

theorem words_singleton {v : List Char} (hne : v ≠ []) (hv : ∀ c ∈ v, isBlank c = false) :
    words v = [v] := by
  have h := words_word_append (s := []) hne hv (by simp)
  rwa [List.append_nil, words_nil] at h

theorem words_pair {v w : List Char} (hv : v ≠ []) (hw : w ≠ [])
    (hvblank : ∀ c ∈ v, isBlank c = false) (hwblank : ∀ c ∈ w, isBlank c = false) :
    words (v ++ ' ' :: w) = [v, w] := by
  rw [words_word_append hv hvblank (by simp; decide), words_cons_blank (by decide),
    words_singleton hw hwblank]

/-- The first word of a text that does not start with white space. -/
theorem words_of_head {s : List Char} (hs : ∃ c ∈ s.head?, isBlank c = false) :
    words s = s.takeWhile (fun c => !isBlank c) :: words (s.dropWhile fun c => !isBlank c) := by
  have hne : s.takeWhile (fun c => !isBlank c) ≠ [] := by
    obtain ⟨c, hc, hblank⟩ := hs
    obtain ⟨t, rfl⟩ := List.head?_eq_some_iff.1 hc
    rw [List.takeWhile_cons_of_pos (by simp [hblank])]
    exact List.cons_ne_nil _ _
  have hword : ∀ c ∈ s.takeWhile (fun c => !isBlank c), isBlank c = false := by
    intro c hc
    simpa using List.mem_takeWhile_imp hc
  have hstop : ∀ c ∈ (s.dropWhile fun c => !isBlank c).head?, isBlank c = true := by
    intro c hc
    simpa using head?_dropWhile_eq_false hc
  have h := words_word_append hne hword hstop
  rwa [List.takeWhile_append_dropWhile] at h

theorem joinWords_append_cons (v w : List Char) (ws : List (List Char)) :
    joinWords ((v ++ w) :: ws) = v ++ joinWords (w :: ws) := by
  cases ws with
  | nil => simp [joinWords]
  | cons u ws => simp [joinWords, List.intercalate_cons_cons]

theorem joinWords_words_append {v s : List Char} (hv : ∀ c ∈ v, isBlank c = false)
    (hs : ∃ c ∈ s.head?, isBlank c = false) :
    joinWords (words (v ++ s)) = v ++ joinWords (words s) := by
  have hpos : ∀ c ∈ v, (!isBlank c) = true := fun c hc => by simp [hv c hc]
  have hhead : ∃ c ∈ (v ++ s).head?, isBlank c = false := by
    cases v with
    | nil => exact hs
    | cons c v => exact ⟨c, rfl, hv c (by simp)⟩
  rw [words_of_head hhead, words_of_head hs, List.takeWhile_append_of_pos hpos,
    List.dropWhile_append_of_pos hpos, joinWords_append_cons]

/-- White space behind a word is at most one space when the words are joined again. -/
theorem joinWords_words_gap {v g s : List Char} (hne : v ≠ []) (hv : ∀ c ∈ v, isBlank c = false)
    (hg : ∀ c ∈ g, isBlank c = true) (hs : ∃ c ∈ s.head?, isBlank c = false) :
    ∃ g', (∀ c ∈ g', c = ' ') ∧
      joinWords (words (v ++ (g ++ s))) = v ++ (g' ++ joinWords (words s)) := by
  by_cases hnil : g = []
  · refine ⟨[], by simp, ?_⟩
    rw [hnil]
    exact joinWords_words_append hv hs
  · have hgap : ∀ c ∈ (g ++ s).head?, isBlank c = true := by
      intro c hc
      rw [List.head?_append_of_ne_nil g hnil] at hc
      exact hg c (List.mem_of_mem_head? hc)
    refine ⟨[' '], fun c hc => List.mem_singleton.1 hc, ?_⟩
    rw [words_word_append hne hv hgap, words_blanks_append hg, words_of_head hs, joinWords,
      List.intercalate_cons_cons, List.append_assoc]
    rfl

/-- Text that starts with no white space still starts so when its words are joined again. -/
theorem joinWords_words_cons {c : Char} (hc : isBlank c = false) (s : List Char) :
    ∃ t, joinWords (words (c :: s)) = c :: t := by
  have hfirst : (c :: s).takeWhile (fun d => !isBlank d) = [c] ++ s.takeWhile fun d => !isBlank d :=
    List.takeWhile_cons_of_pos (by simp [hc])
  rw [words_of_head ⟨c, rfl, hc⟩, hfirst, joinWords_append_cons]
  exact ⟨_, rfl⟩

theorem mem_joinWords {ws : List (List Char)} {c : Char} (h : c ∈ joinWords ws) :
    c = ' ' ∨ ∃ w ∈ ws, c ∈ w := by
  induction ws with
  | nil => cases h
  | cons w ws ih =>
    cases ws with
    | nil => exact Or.inr ⟨w, by simp, by simpa [joinWords] using h⟩
    | cons v ws =>
      rw [joinWords, List.intercalate_cons_cons, List.mem_append, List.mem_append] at h
      rcases h with (h | h) | h
      · exact Or.inr ⟨w, by simp, h⟩
      · exact Or.inl (List.mem_singleton.1 h)
      · rcases ih h with hspace | ⟨u, hu, hc⟩
        · exact Or.inl hspace
        · exact Or.inr ⟨u, List.mem_cons_of_mem w hu, hc⟩

/-- The characters that are not white space. -/
def unspaced (s : List Char) : List Char :=
  s.filter fun c => !isBlank c

theorem flatten_words (s : List Char) : (words s).flatten = unspaced s := by
  rw [words, List.flatten_filter_not_isEmpty]
  induction s with
  | nil => rfl
  | cons c s ih =>
    rw [List.splitOnP_cons_eq_if_modifyHead, unspaced, List.filter_cons]
    cases hc : isBlank c with
    | true => simpa [unspaced] using ih
    | false =>
      obtain ⟨first, others, hsplit⟩ := List.exists_cons_of_ne_nil (List.splitOnP_ne_nil isBlank s)
      rw [hsplit] at ih ⊢
      simpa [unspaced] using ih

theorem unspaced_joinWords (ws : List (List Char)) : unspaced (joinWords ws) = unspaced ws.flatten := by
  induction ws with
  | nil => rfl
  | cons w ws ih =>
    cases ws with
    | nil => simp [joinWords]
    | cons v ws =>
      have hspace : unspaced [' '] = [] := by decide
      rw [joinWords, List.intercalate_cons_cons, List.flatten_cons]
      simp only [unspaced, List.filter_append] at hspace ih ⊢
      rw [hspace, List.append_nil]
      exact congrArg _ ih

/-- Nothing but white space is lost or changed when words are joined again. -/
theorem unspaced_joinWords_words (s : List Char) : unspaced (joinWords (words s)) = unspaced s := by
  rw [unspaced_joinWords, flatten_words, unspaced, unspaced, List.filter_filter]
  simp

theorem mem_joinWords_words_iff {s : List Char} {c : Char} (hc : isBlank c = false) :
    c ∈ joinWords (words s) ↔ c ∈ s := by
  have hmem : ∀ t : List Char, c ∈ unspaced t ↔ c ∈ t := by
    intro t
    simp [unspaced, hc]
  rw [← hmem, unspaced_joinWords_words, hmem]

theorem unspaced_eq_self {s : List Char} (h : ∀ c ∈ s, isBlank c = false) : unspaced s = s := by
  rw [unspaced, List.filter_eq_self]
  intro c hc
  rw [h c hc]
  rfl

theorem unspaced_dropWhile_isBlank (s : List Char) : unspaced (s.dropWhile isBlank) = unspaced s := by
  have hblanks : unspaced (s.takeWhile isBlank) = [] := by
    rw [unspaced, List.filter_eq_nil_iff]
    intro c hc
    simp [List.mem_takeWhile_imp hc]
  rw [unspaced] at hblanks ⊢
  conv_rhs => rw [unspaced, ← List.takeWhile_append_dropWhile (p := isBlank) (l := s),
    List.filter_append, hblanks, List.nil_append]

theorem unspaced_trim (s : List Char) : unspaced (trim s) = unspaced s := by
  have hreverse : ∀ t : List Char, unspaced t.reverse = (unspaced t).reverse := fun t =>
    List.filter_reverse
  rw [trim, trimEnd, hreverse, unspaced_dropWhile_isBlank, hreverse, List.reverse_reverse,
    unspaced_dropWhile_isBlank]

/-- The text up to a mark, and the text from the mark on, without white space. -/
theorem unspaced_takeWhile_dropWhile {c : Char} (hc : isBlank c = false) (s : List Char) :
    unspaced (s.takeWhile (· != c)) = (unspaced s).takeWhile (· != c) ∧
      unspaced (s.dropWhile (· != c)) = (unspaced s).dropWhile (· != c) := by
  induction s with
  | nil => exact ⟨rfl, rfl⟩
  | cons d s ih =>
    simp only [unspaced] at ih ⊢
    by_cases hd : d = c
    · simp [hd, hc]
    · cases hblank : isBlank d <;> simp [hd, hblank, ih]

/-! ## Lines -/

/-- The texts between line breaks. -/
def lines (s : List Char) : List (List Char) :=
  s.splitOn '\n'

theorem lines_nil : lines [] = [[]] := rfl

theorem lines_append_lineBreak {l : List Char} (h : '\n' ∉ l) (t : List Char) :
    lines (l ++ '\n' :: t) = l :: lines t :=
  List.splitOn_append_cons_self_of_not_mem h t

/-! ## Numerals -/

theorem isDigit_of_mem_toString {n : Nat} {c : Char} (h : c ∈ (toString n).toList) :
    c.isDigit = true := by
  rw [Nat.toString_eq_repr, Nat.repr_eq_ofList_toDigits, String.toList_ofList] at h
  exact Nat.isDigit_of_mem_toDigits (by decide) (by decide) h

theorem numeralValue_toString (n : Nat) : numeralValue (toString n).toList = n := by
  rw [Nat.toString_eq_repr, Nat.repr_eq_ofList_toDigits, String.toList_ofList]
  exact Nat.ofDigitChars_ten_toDigits

theorem toString_ne_nil (n : Nat) : (toString n).toList ≠ [] := by
  rw [Nat.toString_eq_repr, Nat.repr_eq_ofList_toDigits, String.toList_ofList]
  exact List.ne_nil_of_length_pos Nat.length_toDigits_pos

theorem readCount?_of_isNumeral {s : List Char} (h : isNumeral s = true) :
    readCount? s = inWord? (numeralValue s) := by
  have hplus : dropPlus s = s := by
    unfold dropPlus
    split
    · exact absurd h (by simp [isNumeral])
    · rfl
  rw [readCount?, hplus, if_pos h]

theorem isNumeral_toString (n : Nat) : isNumeral (toString n).toList = true := by
  rw [isNumeral, Bool.and_eq_true, Bool.not_eq_true', List.isEmpty_eq_false_iff, List.all_eq_true]
  exact ⟨toString_ne_nil n, fun c hc => isDigit_of_mem_toString hc⟩

theorem readCount?_toString {n : Nat} (h : n ≤ maxWord) :
    readCount? (toString n).toList = some n := by
  rw [readCount?_of_isNumeral (isNumeral_toString n), numeralValue_toString]
  exact inWord?_eq_some_iff.2 ⟨rfl, h⟩

/-- The number at the start of a text and what follows its digits. -/
def numeral? (s : List Char) : Option (Nat × List Char) :=
  let digits := s.takeWhile Char.isDigit
  if digits.isEmpty then none else some (numeralValue digits, s.dropWhile Char.isDigit)

theorem numeral?_toString (n : Nat) {t : List Char} (h : ∀ c ∈ t.head?, c.isDigit = false) :
    numeral? ((toString n).toList ++ t) = some (n, t) := by
  have hdigits : ∀ c ∈ (toString n).toList, c.isDigit = true := fun _ => isDigit_of_mem_toString
  have hne : ((toString n).toList).isEmpty = false := by
    rw [List.isEmpty_eq_false_iff]
    exact toString_ne_nil n
  simp only [numeral?]
  rw [takeWhile_append_run hdigits h, dropWhile_append_run hdigits h, numeralValue_toString, hne]
  rfl

/-- What follows a given start of a text. -/
def dropStart? (start s : List Char) : Option (List Char) :=
  if start.isPrefixOf s then some (s.drop start.length) else none

theorem dropStart?_append (start t : List Char) : dropStart? start (start ++ t) = some t := by
  have hstart : start.isPrefixOf (start ++ t) = true := isPrefixOf_append_iff.2 ⟨t, rfl⟩
  rw [dropStart?, if_pos hstart, List.drop_left]

end GlslLayout.Text
