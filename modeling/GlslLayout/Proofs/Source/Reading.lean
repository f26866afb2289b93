import GlslLayout.Proofs.Text
import GlslLayout.Source.Piece

/-!
What one step of reading a source means, said without the readers.

* `Cut.WellFormed`: the shape of a declaration that is cut out.
* `Cut.read?_eq_some_iff`: a declaration is read exactly when the text starts with one of that shape
  and no semicolon follows it.
* `comment?_whole_or_break`: a comment with text behind it either ends by itself or ends in front of
  a line break.
* `Piece.read?_eq_cut_iff`, `Piece.read?_eq_comment_iff`, `Piece.read?_eq_char_iff`: the three kinds
  of pieces.
-/

namespace GlslLayout.Source

set_option autoImplicit false

/-! ## Characters -/

theorem not_isGap_of_isWordChar {c : Char} (h : isWordChar c = true) : isGap c = false := by
  rw [Bool.eq_false_iff]
  intro hgap
  rcases Bool.or_eq_true_iff.1 hgap with hc | hc
  · rw [beq_iff_eq.1 hc] at h
    revert h
    decide
  · rw [beq_iff_eq.1 hc] at h
    revert h
    decide

theorem isBoundary_cases {c : Char} (h : isBoundary c = true) :
    c = ';' ∨ c = '\x7b' ∨ c = '\x7d' ∨ c = '\n' := by
  simpa [isBoundary, or_assoc] using h

theorem not_isWordChar_of_isBoundary {c : Char} (h : isBoundary c = true) :
    isWordChar c = false := by
  rcases isBoundary_cases h with rfl | rfl | rfl | rfl <;> decide

theorem not_isGap_of_isBoundary {c : Char} (h : isBoundary c = true) : isGap c = false := by
  rcases isBoundary_cases h with rfl | rfl | rfl | rfl <;> decide

theorem not_isIndent_of_isWordChar {c : Char} (h : isWordChar c = true) : isIndent c = false := by
  rw [isIndent, not_isGap_of_isWordChar h, Bool.false_or]
  rw [beq_eq_false_iff_ne]
  rintro rfl
  revert h
  decide

theorem isWordChar_of_mem_word {q : Qualifier} {c : Char} (h : c ∈ q.word) :
    isWordChar c = true := by
  have hall : q.word.all isWordChar = true := by
    cases q <;> decide
  exact List.all_eq_true.1 hall c h

theorem Qualifier.word_ne_nil (q : Qualifier) : q.word ≠ [] := by
  cases q <;> decide

/-! ## Declarations -/

/-- The shape of a declaration that is cut out: gaps of spaces and tabs, a qualifier that is a whole
word, a body without semicolons that starts with neither space nor tab, and semicolons. -/
structure Cut.WellFormed (cut : Cut) : Prop where
  lead : ∀ c ∈ cut.lead, isGap c = true
  wholeWord : ∀ c ∈ (cut.gap ++ cut.body).head?, isWordChar c = false
  gap : ∀ c ∈ cut.gap, isGap c = true
  body_ne_nil : cut.body ≠ []
  body_head : ∀ c ∈ cut.body.head?, isGap c = false
  body_semicolon : ';' ∉ cut.body
  stops_ne_nil : cut.stops ≠ []
  stops : ∀ c ∈ cut.stops, c = ';'

theorem bne_semicolon_eq_true {c : Char} : (c != ';') = true ↔ c ≠ ';' := by
  simp

theorem Cut.readBody?_eq_some_iff {lead s rest : List Char} {q : Qualifier} {cut : Cut} :
    Cut.readBody? lead q s = some (cut, rest) ↔
      cut.lead = lead ∧ cut.qualifier = q ∧ s = cut.gap ++ cut.body ++ cut.stops ++ rest ∧
      (∀ c ∈ cut.gap, isGap c = true) ∧ cut.body ≠ [] ∧ (∀ c ∈ cut.body.head?, isGap c = false) ∧
      ';' ∉ cut.body ∧ cut.stops ≠ [] ∧ (∀ c ∈ cut.stops, c = ';') ∧ rest.head? ≠ some ';' := by
  constructor
  · intro h
    simp only [Cut.readBody?] at h
    split at h
    · cases h
    · next hne =>
      simp only [Option.some.injEq, Prod.mk.injEq] at h
      obtain ⟨rfl, rfl⟩ := h
      simp only [Bool.or_eq_true, List.isEmpty_iff, not_or] at hne
      obtain ⟨hbody, htail⟩ := hne
      refine ⟨rfl, rfl, ?_, fun c hc => List.mem_takeWhile_imp hc, hbody, ?_, ?_, ?_, ?_, ?_⟩
      · simp [List.takeWhile_append_dropWhile]
      · intro c hc
        rw [List.head?_takeWhile] at hc
        exact Text.head?_dropWhile_eq_false (Option.mem_def.2 (Option.mem_filter_iff.1 hc).1)
      · intro hmem
        simpa using List.mem_takeWhile_imp hmem
      · intro hnil
        rw [List.takeWhile_eq_nil_iff] at hnil
        have hpos := List.length_pos_iff.2 htail
        refine hnil hpos ?_
        have hhead := Text.head?_dropWhile_eq_false (List.head?_eq_getElem? ▸
          Option.mem_def.2 (List.getElem?_eq_getElem hpos))
        simpa using hhead
      · intro c hc
        simpa using List.mem_takeWhile_imp hc
      · intro hhead
        have := Text.head?_dropWhile_eq_false (Option.mem_def.2 hhead)
        simp at this
  · rintro ⟨rfl, rfl, rfl, hgap, hbody, hhead, hsemi, hstops, hall, hrest⟩
    obtain ⟨c, body, hc⟩ := List.exists_cons_of_ne_nil hbody
    obtain ⟨d, stops, hd⟩ := List.exists_cons_of_ne_nil hstops
    have hdsemi : d = ';' := hall d (by simp [hd])
    have hgapHead : ∀ x ∈ (cut.body ++ (cut.stops ++ rest)).head?, isGap x = false := by
      rw [hc] at hhead ⊢
      exact hhead
    have hstopHead : ∀ x ∈ (cut.stops ++ rest).head?, (x != ';') = false := by
      rw [hd, hdsemi]
      simp
    have hbodyAll : ∀ x ∈ cut.body, (x != ';') = true := by
      intro x hx
      rw [bne_semicolon_eq_true]
      rintro rfl
      exact hsemi hx
    have hstopAll : ∀ x ∈ cut.stops, (x == ';') = true := fun x hx => beq_iff_eq.2 (hall x hx)
    have hrestHead : ∀ x ∈ rest.head?, (x == ';') = false := by
      intro x hx
      rw [beq_eq_false_iff_ne]
      rintro rfl
      exact hrest hx
    simp only [Cut.readBody?, List.append_assoc]
    rw [Text.takeWhile_append_run hgap hgapHead, Text.dropWhile_append_run hgap hgapHead,
      Text.takeWhile_append_run hbodyAll hstopHead, Text.dropWhile_append_run hbodyAll hstopHead,
      Text.takeWhile_append_run hstopAll hrestHead, Text.dropWhile_append_run hstopAll hrestHead]
    simp [hbody, hstops]

theorem Cut.read?_eq_some_iff {s rest : List Char} {cut : Cut} :
    Cut.read? s = some (cut, rest) ↔
      s = cut.toList ++ rest ∧ cut.WellFormed ∧ rest.head? ≠ some ';' := by
  constructor
  · intro h
    have hsource := (Cut.toList_read? h).symm
    simp only [Cut.read?] at h
    split at h
    · cases h
    · next q hq =>
      obtain ⟨hlead, rfl, htext, hgap, hbody, hhead, hsemi, hstops, hall, hrest⟩ :=
        Cut.readBody?_eq_some_iff.1 h
      refine ⟨hsource, ⟨?_, ?_, hgap, hbody, hhead, hsemi, hstops, hall⟩, hrest⟩
      · rw [hlead]
        exact fun c hc => List.mem_takeWhile_imp hc
      · intro c hc
        have hmem : c ∈ ((s.dropWhile isGap).dropWhile isWordChar).head? := by
          rw [htext, List.append_assoc, List.head?_append, Option.mem_def.1 hc]
          rfl
        exact Text.head?_dropWhile_eq_false hmem
  · rintro ⟨rfl, wf, hrest⟩
    obtain ⟨c, word, hc⟩ := List.exists_cons_of_ne_nil cut.qualifier.word_ne_nil
    have hword : ∀ x ∈ cut.qualifier.word, isWordChar x = true := fun x hx =>
      isWordChar_of_mem_word hx
    have hleadHead : ∀ x ∈ (cut.qualifier.word ++ (cut.gap ++ (cut.body ++ (cut.stops ++ rest)))).head?,
        isGap x = false := by
      rw [hc] at hword ⊢
      intro x hx
      simp only [List.cons_append, List.head?_cons, Option.mem_some_iff] at hx
      exact not_isGap_of_isWordChar (hword x (by simp [hx]))
    have hwordHead : ∀ x ∈ (cut.gap ++ (cut.body ++ (cut.stops ++ rest))).head?,
        isWordChar x = false := by
      have hne : cut.gap ++ cut.body ≠ [] := by
        intro hnil
        exact wf.body_ne_nil (List.append_eq_nil_iff.1 hnil).2
      obtain ⟨d, more, hd⟩ := List.exists_cons_of_ne_nil hne
      have hwhole := wf.wholeWord
      rw [← List.append_assoc, hd]
      rw [hd] at hwhole
      exact hwhole
    simp only [Cut.read?, Cut.toList, List.append_assoc]
    rw [Text.takeWhile_append_run wf.lead hleadHead, Text.dropWhile_append_run wf.lead hleadHead,
      Text.takeWhile_append_run hword hwordHead, Text.dropWhile_append_run hword hwordHead,
      Qualifier.ofWord?_eq_some_iff.2 rfl]
    refine Cut.readBody?_eq_some_iff.2 ⟨rfl, rfl, ?_, wf.gap, wf.body_ne_nil, wf.body_head,
      wf.body_semicolon, wf.stops_ne_nil, wf.stops, hrest⟩
    simp

/-- A gap in front changes nothing about whether a declaration is read. -/
theorem Cut.isSome_read?_cons_gap {c : Char} (hc : isGap c = true) (s : List Char) :
    (Cut.read? (c :: s)).isSome = (Cut.read? s).isSome := by
  simp only [Cut.read?, List.dropWhile_cons_of_pos hc]
  split
  · rfl
  · simp only [Cut.readBody?]
    split <;> rfl

theorem Cut.read?_cons_gap_ne_none {c : Char} {s : List Char} (hc : isGap c = true)
    (h : (Cut.read? s).isSome = true) : Cut.read? (c :: s) ≠ none := by
  rw [← Option.isSome_iff_ne_none, Cut.isSome_read?_cons_gap hc]
  exact h

theorem Cut.read?_eq_none_of_head {c : Char} {s : List Char} (hgap : isGap c = false)
    (hword : isWordChar c = false) : Cut.read? (c :: s) = none := by
  have hdrop : (c :: s).dropWhile isGap = c :: s := List.dropWhile_cons_of_neg (by simp [hgap])
  have htake : (c :: s).takeWhile isWordChar = [] := List.takeWhile_cons_of_neg (by simp [hword])
  have hnone : Qualifier.ofWord? [] = none := by decide
  simp only [Cut.read?, hdrop, htake, hnone]

/-! ## Comments -/

theorem ne_nil_of_splitAtClose {s inside rest : List Char} (h : splitAtClose s = (inside, rest))
    (hrest : rest ≠ []) : inside ≠ [] := by
  unfold splitAtClose at h
  split at h <;> simp_all
  · simp [← h.1]
  · simp [← h.1]

/-- A closed comment ends where it ends, whatever follows. -/
theorem splitAtClose_append_of_closed {s inside rest : List Char}
    (h : splitAtClose s = (inside, rest)) (hrest : rest ≠ []) (t : List Char) :
    splitAtClose (inside ++ t) = (inside, t) := by
  fun_induction splitAtClose s generalizing inside with
  | case1 s =>
    obtain ⟨rfl, rfl⟩ := Prod.mk.inj h
    rfl
  | case2 =>
    obtain ⟨-, rfl⟩ := Prod.mk.inj h
    exact absurd rfl hrest
  | case3 c s hopen inside' rest' hsplit ih =>
    obtain ⟨rfl, rfl⟩ := Prod.mk.inj h
    have hinside := ne_nil_of_splitAtClose hsplit hrest
    obtain ⟨d, more, rfl⟩ := List.exists_cons_of_ne_nil hinside
    have hsource := splitAtClose_append s
    rw [hsplit] at hsource
    have hrec := ih hsplit
    rw [List.cons_append, splitAtClose, hrec]
    rintro u rfl hu
    obtain ⟨rfl, -⟩ := List.cons.inj hu
    exact hopen (more ++ rest') rfl hsource.symm

theorem comment?_head {s text rest : List Char} (h : comment? s = some (text, rest)) :
    ∃ more, s = '/' :: more := by
  unfold comment? at h
  split at h
  · exact ⟨_, rfl⟩
  · exact ⟨_, rfl⟩
  · cases h

theorem comment?_cons_eq_none_iff {c : Char} {s : List Char} :
    comment? (c :: s) = none ↔ (c = '/' → s.head? ≠ some '/' ∧ s.head? ≠ some '*') := by
  constructor
  · rintro h rfl
    constructor
    · intro hs
      obtain ⟨more, rfl⟩ := List.head?_eq_some_iff.1 hs
      simp [comment?] at h
    · intro hs
      obtain ⟨more, rfl⟩ := List.head?_eq_some_iff.1 hs
      simp [comment?] at h
  · intro h
    unfold comment?
    split
    · next heq =>
      obtain ⟨rfl, rfl⟩ := List.cons.inj heq
      exact absurd rfl (h rfl).1
    · next heq =>
      obtain ⟨rfl, rfl⟩ := List.cons.inj heq
      exact absurd rfl (h rfl).2
    · rfl

/-- A comment with text behind it either ends by itself, or it is a line comment and the text behind
it is a line break. -/
theorem comment?_whole_or_break {s text rest : List Char} (h : comment? s = some (text, rest))
    (hrest : rest ≠ []) :
    (∀ t, comment? (text ++ t) = some (text, t)) ∨
      (rest.head? = some '\n' ∧ ∀ t, comment? (text ++ '\n' :: t) = some (text, '\n' :: t)) := by
  unfold comment? at h
  split at h
  · next s =>
    right
    obtain ⟨rfl, rfl⟩ := Prod.mk.inj (Option.some.inj h)
    have hbreak : (s.dropWhile (· != '\n')).head? = some '\n' := by
      obtain ⟨c, more, hc⟩ := List.exists_cons_of_ne_nil hrest
      have hstop : (c != '\n') = false :=
        Text.head?_dropWhile_eq_false (p := (· != '\n')) (l := s) (by rw [hc]; rfl)
      rw [hc, List.head?_cons, bne_eq_false_iff_eq.1 hstop]
    refine ⟨hbreak, fun t => ?_⟩
    have hline : ∀ x ∈ s.takeWhile (· != '\n'), (x != '\n') = true :=
      fun x hx => List.mem_takeWhile_imp (p := (· != '\n')) hx
    have hnext : ∀ x ∈ ('\n' :: t).head?, (x != '\n') = false := by simp
    simp only [List.cons_append, comment?]
    rw [Text.takeWhile_append_run hline hnext, Text.dropWhile_append_run hline hnext]
  · next s =>
    left
    obtain ⟨rfl, rfl⟩ := Prod.mk.inj (Option.some.inj h)
    intro t
    have hclosed := splitAtClose_append_of_closed (s := s) rfl hrest t
    simp only [List.cons_append, comment?, hclosed]
  · cases h

theorem getLast?_of_splitAtClose {s inside rest : List Char}
    (h : splitAtClose s = (inside, rest)) (hrest : rest ≠ []) : inside.getLast? = some '/' := by
  fun_induction splitAtClose s generalizing inside with
  | case1 s =>
    obtain ⟨rfl, rfl⟩ := Prod.mk.inj h
    rfl
  | case2 =>
    obtain ⟨-, rfl⟩ := Prod.mk.inj h
    exact absurd rfl hrest
  | case3 c s _ inside' rest' hsplit ih =>
    obtain ⟨rfl, rfl⟩ := Prod.mk.inj h
    obtain ⟨d, more, rfl⟩ := List.exists_cons_of_ne_nil (ne_nil_of_splitAtClose hsplit hrest)
    rw [List.getLast?_cons_cons]
    exact ih hsplit

/-- A comment that ends by itself ends with a slash. -/
theorem getLast?_of_whole {text : List Char} (h : ∀ t, comment? (text ++ t) = some (text, t)) :
    text.getLast? = some '/' := by
  have hread := h ['.']
  unfold comment? at hread
  split at hread
  · next s _ =>
    obtain ⟨-, hrest⟩ := Prod.mk.inj (Option.some.inj hread)
    have hstop : ('.' != '\n') = false :=
      Text.head?_dropWhile_eq_false (p := (· != '\n')) (l := s) (by rw [hrest]; rfl)
    exact absurd hstop (by decide)
  · next s _ =>
    obtain ⟨htext, hrest⟩ := Prod.mk.inj (Option.some.inj hread)
    have hlast := getLast?_of_splitAtClose (s := s) rfl (by rw [hrest]; simp)
    obtain ⟨c, more, hinside⟩ := List.exists_cons_of_ne_nil
      (ne_nil_of_splitAtClose (s := s) rfl (by rw [hrest]; simp))
    rw [← htext, hinside, List.getLast?_cons_cons, List.getLast?_cons_cons, ← hinside]
    exact hlast
  · cases hread

/-! ## Pieces -/

namespace Piece

theorem read?_eq_cut_iff {atStart : Bool} {s rest : List Char} {cut : Cut} :
    read? atStart s = some (.cut cut, rest) ↔ atStart = true ∧ Cut.read? s = some (cut, rest) := by
  constructor
  · intro h
    unfold read? at h
    split at h
    · next found tail hdecl =>
      obtain ⟨hcut, rfl⟩ := Prod.mk.inj (Option.some.inj h)
      obtain rfl := Piece.cut.inj hcut
      unfold declaration? at hdecl
      split at hdecl
      · next hstart => exact ⟨hstart, hdecl⟩
      · cases hdecl
    · split at h
      · simp at h
      · split at h <;> simp at h
  · rintro ⟨rfl, h⟩
    simp [read?, declaration?, h]

theorem read?_eq_comment_iff {atStart : Bool} {s text rest : List Char} :
    read? atStart s = some (.comment text, rest) ↔ comment? s = some (text, rest) := by
  constructor
  · intro h
    unfold read? at h
    split at h
    · simp at h
    · split at h
      · next hcomment =>
        obtain ⟨htext, rfl⟩ := Prod.mk.inj (Option.some.inj h)
        obtain rfl := Piece.comment.inj htext
        exact hcomment
      · split at h <;> simp at h
  · intro h
    obtain ⟨more, rfl⟩ := comment?_head h
    have hcut : Cut.read? ('/' :: more) = none := Cut.read?_eq_none_of_head (by decide) (by decide)
    have hdecl : declaration? atStart ('/' :: more) = none := by
      cases atStart
      · rfl
      · exact hcut
    simp only [read?, hdecl, h]

theorem read?_eq_char_iff {atStart : Bool} {c : Char} {s rest : List Char} :
    read? atStart s = some (.char c, rest) ↔
      s = c :: rest ∧ (atStart = true → Cut.read? s = none) ∧ comment? s = none := by
  constructor
  · intro h
    unfold read? at h
    split at h
    · simp at h
    · next hdecl =>
      split at h
      · simp at h
      · next hcomment =>
        split at h
        · simp at h
        · obtain ⟨hc, rfl⟩ := Prod.mk.inj (Option.some.inj h)
          obtain rfl := Piece.char.inj hc
          refine ⟨rfl, ?_, hcomment⟩
          rintro rfl
          exact hdecl
  · rintro ⟨rfl, hcut, hcomment⟩
    have hdecl : declaration? atStart (c :: rest) = none := by
      cases atStart
      · rfl
      · exact hcut rfl
    simp only [read?, hdecl, hcomment]

end Piece

end GlslLayout.Source
