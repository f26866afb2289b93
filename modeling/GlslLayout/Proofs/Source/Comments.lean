import GlslLayout.Proofs.Source.Decomposition

/-!
Where the comments of a source are once it is divided.

* `lexemes_append`: all lexemes of a text but the last are the same whatever follows the text.
* `Segmentation.parts`: the kept texts and the cuts of a source, in order.
* `IsComment`, `InComment`: a comment of a text, and a place inside a comment.
* `CommentsIntact`: no comment is divided, ends a declaration or opens one.
* `commentsIntact_iff`: so it is if and only if no declaration has a comment open at its semicolon.
-/

namespace GlslLayout.Source

set_option autoImplicit false

/-! ## Lexemes of joined texts -/

/-- The text of a lexeme. -/
def Lexeme.toList : Lexeme → List Char
  | .comment text => text
  | .char c => [c]

@[elab_as_elim]
theorem lexemes_induction {motive : List Char → Prop} (nil : motive [])
    (comment : ∀ text rest, comment? (text ++ rest) = some (text, rest) → motive rest →
      motive (text ++ rest))
    (char : ∀ c rest, comment? (c :: rest) = none → motive rest → motive (c :: rest))
    (s : List Char) : motive s := by
  induction hn : s.length using Nat.strong_induction_on generalizing s with
  | _ n ih =>
    subst hn
    cases hread : comment? s with
    | some found =>
      obtain ⟨text, rest⟩ := found
      have hlt := length_lt_of_comment? hread
      obtain rfl := append_of_comment? hread
      exact comment text rest hread (ih rest.length hlt rest rfl)
    | none =>
      cases s with
      | nil => exact nil
      | cons c rest => exact char c rest hread (ih rest.length (by simp) rest rfl)

theorem flatMap_toList_lexemes (s : List Char) : (lexemes s).flatMap Lexeme.toList = s := by
  induction s using lexemes_induction with
  | nil => rw [lexemes_nil]; rfl
  | comment text rest h ih =>
    rw [lexemes_of_comment h, List.flatMap_cons, ih]
    rfl
  | char c rest h ih =>
    rw [lexemes_of_char h, List.flatMap_cons, ih]
    rfl

theorem lexemes_eq_nil_iff {s : List Char} : lexemes s = [] ↔ s = [] := by
  constructor
  · intro h
    rw [← flatMap_toList_lexemes s, h]
    rfl
  · rintro rfl
    exact lexemes_nil

theorem comment?_append {text rest : List Char} (h : comment? (text ++ rest) = some (text, rest))
    (hrest : rest ≠ []) (t : List Char) :
    comment? (text ++ (rest ++ t)) = some (text, rest ++ t) := by
  rcases comment?_whole_or_break h hrest with hwhole | ⟨hbreak, hline⟩
  · exact hwhole (rest ++ t)
  · obtain ⟨more, rfl⟩ := List.head?_eq_some_iff.1 hbreak
    exact hline (more ++ t)

theorem comment?_cons_append {c : Char} {rest : List Char} (h : comment? (c :: rest) = none)
    (hrest : rest ≠ []) (t : List Char) : comment? (c :: (rest ++ t)) = none := by
  obtain ⟨d, more, rfl⟩ := List.exists_cons_of_ne_nil hrest
  rw [comment?_cons_eq_none_iff] at h ⊢
  exact h

/-- Only the last lexeme of a text depends on what follows the text. -/
theorem lexemes_append {s : List Char} {ls : List Lexeme} {l : Lexeme} (h : lexemes s = ls ++ [l])
    (t : List Char) : lexemes (s ++ t) = ls ++ lexemes (l.toList ++ t) := by
  -- in front of the last lexeme some text is left, so the next lexeme ends in front of `t`
  induction s using lexemes_induction generalizing ls with
  | nil =>
    rw [lexemes_nil] at h
    simp at h
  | comment text rest hread ih =>
    rw [lexemes_of_comment hread] at h
    cases ls with
    | nil =>
      obtain ⟨rfl, hnil⟩ := List.cons.inj h
      obtain rfl := lexemes_eq_nil_iff.1 hnil
      rw [List.append_nil]
      rfl
    | cons l' ls =>
      obtain ⟨rfl, hrest⟩ := List.cons.inj h
      have hne : rest ≠ [] := by
        rintro rfl
        simp [lexemes_nil] at hrest
      rw [List.append_assoc, lexemes_of_comment (comment?_append hread hne t), ih hrest]
      rfl
  | char c rest hread ih =>
    rw [lexemes_of_char hread] at h
    cases ls with
    | nil =>
      obtain ⟨rfl, hnil⟩ := List.cons.inj h
      obtain rfl := lexemes_eq_nil_iff.1 hnil
      rfl
    | cons l' ls =>
      obtain ⟨rfl, hrest⟩ := List.cons.inj h
      have hne : rest ≠ [] := by
        rintro rfl
        simp [lexemes_nil] at hrest
      rw [List.cons_append, lexemes_of_char (comment?_cons_append hread hne t), ih hrest]
      rfl

/-- A lexeme that is read as it is whatever follows it. -/
def Lexeme.Settled (l : Lexeme) : Prop :=
  ∀ t, lexemes (l.toList ++ t) = l :: lexemes t

theorem Lexeme.settled_char {c : Char} (h : c ≠ '/') : (Lexeme.char c).Settled :=
  fun _ => lexemes_of_char (comment?_cons_eq_none_iff.2 fun hslash => absurd hslash h)

theorem Lexeme.IsFiller.settled {l : Lexeme} (h : l.IsFiller) : l.Settled := by
  cases l with
  | comment text => exact fun t => lexemes_of_comment (h t)
  | char c =>
    apply settled_char
    rintro rfl
    exact absurd (show isIndent '/' = true from h) (by decide)

theorem Lexeme.IsBoundary.settled {l : Lexeme} (h : l.IsBoundary) : l.Settled := by
  cases l with
  | comment text => exact h.elim
  | char c =>
    apply settled_char
    rintro rfl
    exact absurd (show Source.isBoundary '/' = true from h) (by decide)

/-- A text whose lexemes are the same whatever follows it. -/
def Splits (s : List Char) : Prop :=
  ∀ t, lexemes (s ++ t) = lexemes s ++ lexemes t

theorem splits_nil : Splits [] := by
  intro t
  rw [lexemes_nil]
  rfl

theorem Splits.append {s t : List Char} (hs : Splits s) (ht : Splits t) : Splits (s ++ t) := by
  intro u
  rw [List.append_assoc, hs, ht, hs, List.append_assoc]

theorem splits_of_last {s : List Char} {ls : List Lexeme} {l : Lexeme} (h : lexemes s = ls ++ [l])
    (hl : l.Settled) : Splits s := by
  intro t
  rw [lexemes_append h, hl, h]
  simp

theorem lexemes_of_not_mem {s : List Char} (h : '/' ∉ s) : lexemes s = s.map .char := by
  induction s with
  | nil => exact lexemes_nil
  | cons c s ih =>
    have hc : c ≠ '/' := fun hslash => h (by simp [hslash])
    have hread : lexemes (c :: s) = .char c :: lexemes s := Lexeme.settled_char hc s
    rw [hread, ih fun hs => h (List.mem_cons_of_mem c hs)]
    rfl

theorem splits_of_not_mem {s : List Char} (h : '/' ∉ s) : Splits s := by
  rcases List.eq_nil_or_concat' s with rfl | ⟨init, c, rfl⟩
  · exact splits_nil
  · have hlex : lexemes (init ++ [c]) = init.map .char ++ [.char c] := by
      rw [lexemes_of_not_mem h, List.map_append]
      rfl
    have hc : c ≠ '/' := fun hslash => h (by simp [hslash])
    exact splits_of_last hlex (Lexeme.settled_char hc)

/-- Text that ends where a statement starts has the same lexemes whatever follows it. -/
theorem StartsStatement.splits {s : List Char} (h : StartsStatement s) : Splits s := by
  obtain ⟨before, fillers, hsplit, hfill, hlast⟩ := h
  rcases List.eq_nil_or_concat' fillers with rfl | ⟨init, l, rfl⟩
  · rw [List.append_nil] at hsplit
    rcases List.eq_nil_or_concat' before with rfl | ⟨init, l, rfl⟩
    · obtain rfl := lexemes_eq_nil_iff.1 hsplit
      exact splits_nil
    · exact splits_of_last hsplit (hlast l (by simp)).settled
  · rw [← List.append_assoc] at hsplit
    exact splits_of_last hsplit (hfill l (by simp)).settled

/-! ## Open comments -/

theorem splitAtClose_prolong (s t : List Char) :
    ∃ more rest, splitAtClose ((splitAtClose s).1 ++ t) = ((splitAtClose s).1 ++ more, rest) := by
  fun_induction splitAtClose s with
  | case1 s => exact ⟨[], t, rfl⟩
  | case2 => exact ⟨(splitAtClose t).1, (splitAtClose t).2, rfl⟩
  | case3 c s hopen inside rest hsplit ih =>
    rw [hsplit] at ih
    obtain ⟨more, rest', ih⟩ := ih
    by_cases hclose : c = '*' ∧ ∃ u, inside ++ t = '/' :: u
    · obtain ⟨rfl, u, hu⟩ := hclose
      -- the star is closed by what follows only if it was the last character
      have hinside : inside = [] := by
        cases inside with
        | nil => rfl
        | cons d inside =>
          have hsource := splitAtClose_append s
          rw [hsplit] at hsource
          obtain ⟨rfl, -⟩ := List.cons.inj hu
          exact absurd hsource.symm (hopen _ rfl)
      subst hinside
      rw [List.nil_append] at hu
      subst hu
      exact ⟨['/'], u, rfl⟩
    · refine ⟨more, rest', ?_⟩
      rw [List.cons_append, splitAtClose, ih]
      · rfl
      · exact fun u hc hu => hclose ⟨hc, u, hu⟩

/-- With more text behind it a comment goes on or stays as it is. -/
theorem comment?_prolong {s text rest : List Char} (h : comment? s = some (text, rest))
    (t : List Char) : ∃ more rest', comment? (text ++ t) = some (text ++ more, rest') := by
  unfold comment? at h
  split at h
  · next s =>
    obtain ⟨rfl, rfl⟩ := Prod.mk.inj (Option.some.inj h)
    have hline : ∀ c ∈ s.takeWhile (· != '\n'), (c != '\n') = true :=
      fun c hc => List.mem_takeWhile_imp (p := (· != '\n')) hc
    refine ⟨t.takeWhile (· != '\n'), t.dropWhile (· != '\n'), ?_⟩
    simp only [List.cons_append, comment?]
    rw [List.takeWhile_append_of_pos hline, List.dropWhile_append_of_pos hline]
  · next s =>
    obtain ⟨rfl, rfl⟩ := Prod.mk.inj (Option.some.inj h)
    obtain ⟨more, rest', hmore⟩ := splitAtClose_prolong s t
    refine ⟨more, rest', ?_⟩
    simp only [List.cons_append, comment?, hmore]
  · cases h

theorem comment?_of_mem_lexemes {s text : List Char} (h : .comment text ∈ lexemes s) :
    ∃ rest, comment? (text ++ rest) = some (text, rest) := by
  induction s using lexemes_induction with
  | nil =>
    rw [lexemes_nil] at h
    cases h
  | comment text' rest hread ih =>
    rw [lexemes_of_comment hread] at h
    rcases List.mem_cons.1 h with heq | hmem
    · obtain rfl := Lexeme.comment.inj heq
      exact ⟨rest, hread⟩
    · exact ih hmem
  | char c rest hread ih =>
    rw [lexemes_of_char hread] at h
    rcases List.mem_cons.1 h with heq | hmem
    · cases heq
    · exact ih hmem

/-! ## Places in a text -/

/-- `text` is a comment of `s`, and `before` is what stands in front of it. -/
def IsComment (s before text : List Char) : Prop :=
  ∃ ls rs, lexemes s = ls ++ .comment text :: rs ∧ ls.flatMap Lexeme.toList = before

/-- The character of `s` behind `before` stands in a comment. -/
def InComment (s before : List Char) : Prop :=
  ∃ start text, IsComment s start text ∧ start.length ≤ before.length ∧
    before.length < start.length + text.length

theorem InComment.append_left {s t before : List Char} (hs : Splits s) (h : InComment t before) :
    InComment (s ++ t) (s ++ before) := by
  obtain ⟨start, text, ⟨ls, rs, hlex, hstart⟩, hle, hlt⟩ := h
  have hjoined : lexemes (s ++ t) = (lexemes s ++ ls) ++ .comment text :: rs := by
    rw [hs t, hlex, List.append_assoc]
  have hfront : (lexemes s ++ ls).flatMap Lexeme.toList = s ++ start := by
    rw [List.flatMap_append, flatMap_toList_lexemes, hstart]
  refine ⟨s ++ start, text, ⟨_, rs, hjoined, hfront⟩, ?_, ?_⟩
  · simp only [List.length_append]
    omega
  · simp only [List.length_append]
    omega

/-- A character that is a lexeme of its own stands in no comment. -/
theorem not_inComment_of_char {s : List Char} {ls rs : List Lexeme} {c : Char}
    (h : lexemes s = ls ++ .char c :: rs) : ¬ InComment s (ls.flatMap Lexeme.toList) := by
  rintro ⟨start, text, ⟨ls', rs', hlex, rfl⟩, hle, hlt⟩
  rw [h] at hlex
  rcases List.append_eq_append_iff.1 hlex with ⟨mid, rfl, hmid⟩ | ⟨mid, rfl, hmid⟩
  · cases mid with
    | nil => simp at hmid
    | cons l mid =>
      obtain ⟨rfl, -⟩ := List.cons.inj hmid
      simp only [List.flatMap_append, List.flatMap_cons, List.length_append, Lexeme.toList,
        List.length_singleton] at hle
      omega
  · cases mid with
    | nil => simp at hmid
    | cons l mid =>
      obtain ⟨rfl, -⟩ := List.cons.inj hmid
      simp only [List.flatMap_append, List.flatMap_cons, List.length_append, Lexeme.toList] at hlt
      omega

/-! ## Declarations and comments -/

namespace Cut

/-- What stands in front of the body. -/
def opening (cut : Cut) : List Char :=
  cut.lead ++ cut.qualifier.word ++ cut.gap

/-- At the first semicolon all comments of the body have ended. -/
def Closed (cut : Cut) : Prop :=
  (lexemes (cut.body ++ [';'])).getLast? = some (.char ';')

theorem WellFormed.slash_not_mem_opening {cut : Cut} (wf : cut.WellFormed) :
    '/' ∉ cut.opening := by
  have hgap : isGap '/' = false := by decide
  have hword : isWordChar '/' = false := by decide
  intro h
  rcases List.mem_append.1 h with h | h
  · rcases List.mem_append.1 h with h | h
    · rw [wf.lead _ h] at hgap
      cases hgap
    · rw [isWordChar_of_mem_word h] at hword
      cases hword
  · rw [wf.gap _ h] at hgap
    cases hgap

theorem WellFormed.exists_toList {cut : Cut} (wf : cut.WellFormed) :
    ∃ stops, '/' ∉ stops ∧ cut.toList = cut.opening ++ ((cut.body ++ [';']) ++ stops) := by
  obtain ⟨stop, stops, hstops⟩ := List.exists_cons_of_ne_nil wf.stops_ne_nil
  have hstop : stop = ';' := wf.stops stop (by simp [hstops])
  refine ⟨stops, ?_, ?_⟩
  · intro h
    exact absurd (wf.stops '/' (by simp [hstops, h])) (by decide)
  · simp [toList, opening, hstops, hstop]

theorem Closed.splits_body {cut : Cut} (h : cut.Closed) : Splits (cut.body ++ [';']) := by
  obtain ⟨init, hinit⟩ := List.getLast?_eq_some_iff.1 h
  exact splits_of_last hinit (Lexeme.settled_char (by decide))

theorem Closed.splits {cut : Cut} (h : cut.Closed) (wf : cut.WellFormed) : Splits cut.toList := by
  obtain ⟨stops, hstops, htext⟩ := wf.exists_toList
  rw [htext]
  exact (splits_of_not_mem wf.slash_not_mem_opening).append
    (h.splits_body.append (splits_of_not_mem hstops))

/-- The comment that is open at the semicolon of a declaration goes on in what follows. -/
theorem inComment_of_not_closed {cut : Cut} (wf : cut.WellFormed) (h : ¬ cut.Closed)
    (t : List Char) : InComment (cut.toList ++ t) (cut.opening ++ cut.body) := by
  obtain ⟨stops, -, htext⟩ := wf.exists_toList
  have hsplit : cut.toList ++ t = cut.opening ++ ((cut.body ++ [';']) ++ (stops ++ t)) := by
    rw [htext]
    simp only [List.append_assoc]
  rw [hsplit]
  apply InComment.append_left (splits_of_not_mem wf.slash_not_mem_opening)
  have hne : lexemes (cut.body ++ [';']) ≠ [] := by
    rw [ne_eq, lexemes_eq_nil_iff]
    simp
  obtain ⟨ls, l, hlex⟩ := (List.eq_nil_or_concat' _).resolve_left hne
  have hflat : ls.flatMap Lexeme.toList ++ l.toList = cut.body ++ [';'] := by
    rw [← flatMap_toList_lexemes (cut.body ++ [';']), hlex, List.flatMap_append,
      List.flatMap_singleton]
  cases l with
  | char c =>
    obtain ⟨-, hc⟩ := List.append_inj' hflat rfl
    obtain rfl : c = ';' := by simpa [Lexeme.toList] using hc
    refine absurd ?_ h
    rw [Closed, hlex]
    simp
  | comment text =>
    have hmem : .comment text ∈ lexemes (cut.body ++ [';']) := by
      rw [hlex]
      simp
    obtain ⟨rest, hread⟩ := comment?_of_mem_lexemes hmem
    obtain ⟨more, rest', hmore⟩ := comment?_prolong hread (stops ++ t)
    have hlong : lexemes ((cut.body ++ [';']) ++ (stops ++ t)) =
        ls ++ .comment (text ++ more) :: lexemes rest' := by
      rw [lexemes_append hlex, Lexeme.toList, lexemes_of_comment hmore]
    have htext : text ≠ [] := ne_nil_of_comment? hread
    have hlength := congrArg List.length hflat
    have hpos := List.length_pos_iff.2 htext
    simp only [List.length_append, List.length_singleton, Lexeme.toList] at hlength
    refine ⟨_, _, ⟨ls, _, hlong, rfl⟩, ?_, ?_⟩
    · omega
    · simp only [List.length_append]
      omega

end Cut

/-! ## The parts of a source -/

/-- A part of a divided source. -/
inductive Part where
  | kept (text : List Char)
  | cut (cut : Cut)
  deriving DecidableEq, Repr

/-- The text of a part. -/
def Part.toList : Part → List Char
  | .kept text => text
  | .cut c => c.toList

/-- The parts of a source, in order. -/
def Segmentation.parts (g : Segmentation) : List Part :=
  .kept g.head :: g.cuts.flatMap fun piece => [.cut piece.1, .kept piece.2]

theorem Segmentation.parts_keep_remove (kept : List Char) (cut : Cut) (g : Segmentation) :
    ((g.remove cut).keep kept).parts = .kept kept :: .cut cut :: g.parts := by
  simp [keep, remove, parts]

theorem Segmentation.cut_mem_parts_iff {g : Segmentation} {cut : Cut} :
    .cut cut ∈ g.parts ↔ cut ∈ g.cuts.map Prod.fst := by
  simp [parts]

/-- If no comment is open at a semicolon, the lexemes of a source are those of its parts. -/
theorem lexemes_eq_flatMap_parts {s : List Char}
    (h : ∀ cut ∈ (segment s).cuts.map Prod.fst, cut.Closed) :
    lexemes s = (segment s).parts.flatMap fun part => lexemes part.toList := by
  induction s using segment_induction with
  | plain s hplain =>
    rw [hplain]
    simp [Segmentation.parts, Part.toList]
  | cut kept cut rest hleads hread hsegment ih =>
    rw [hsegment] at h ⊢
    obtain ⟨-, wf, -⟩ := Cut.read?_eq_some_iff.1 hread
    have hcut : cut.Closed := h cut (by simp [Segmentation.keep, Segmentation.remove])
    have hrest : ∀ cut ∈ (segment rest).cuts.map Prod.fst, cut.Closed := by
      intro other hother
      exact h other (List.mem_cons_of_mem cut hother)
    rw [hleads.startsStatement.splits, hcut.splits wf, ih hrest, Segmentation.parts_keep_remove,
      List.flatMap_cons, List.flatMap_cons]
    rfl

/-- An element of a flattened list is an element of one of the lists. -/
theorem exists_of_flatMap_eq_append_cons {α β : Type} {f : α → List β} {l : List α} {b : β}
    {before after : List β} (h : l.flatMap f = before ++ b :: after) :
    ∃ ps a qs u v, l = ps ++ a :: qs ∧ f a = u ++ b :: v ∧ before = ps.flatMap f ++ u := by
  induction l generalizing before with
  | nil => simp at h
  | cons a l ih =>
    have hlater : ∀ u, before = f a ++ u → l.flatMap f = u ++ b :: after →
        ∃ ps a' qs u v, a :: l = ps ++ a' :: qs ∧ f a' = u ++ b :: v ∧
          before = ps.flatMap f ++ u := by
      intro u hbefore hrest
      obtain ⟨ps, a', qs, u', v, rfl, hv, rfl⟩ := ih hrest
      exact ⟨a :: ps, a', qs, u', v, rfl, hv, by simp [hbefore]⟩
    rw [List.flatMap_cons] at h
    rcases List.append_eq_append_iff.1 h with ⟨u, hbefore, hrest⟩ | ⟨v, ha, hrest⟩
    · exact hlater u hbefore hrest
    · cases v with
      | nil => exact hlater [] (by simpa using ha.symm) hrest.symm
      | cons d v =>
        obtain ⟨rfl, -⟩ := List.cons.inj hrest
        exact ⟨[], a, l, before, v, rfl, ha, rfl⟩

/-- No comment of a source is divided, and none ends a declaration or opens one. -/
structure CommentsIntact (source : String) : Prop where
  /-- Every comment stands in one part. If this part is kept, it stands in the stripped source. -/
  whole : ∀ before text, IsComment source.toList before text →
    ∃ ps part qs u v, (segment source.toList).parts = ps ++ part :: qs ∧
      part.toList = u ++ text ++ v ∧ before = ps.flatMap Part.toList ++ u ∧
      ∀ kept, part = .kept kept → kept <:+: (strip source).text.toList
  /-- The semicolon that ends a declaration is in no comment. -/
  ends : ∀ ps cut qs, (segment source.toList).parts = ps ++ .cut cut :: qs →
    ¬ InComment source.toList (ps.flatMap Part.toList ++ (cut.opening ++ cut.body))
  /-- The qualifier that opens a declaration is in no comment. -/
  opens : ∀ ps cut qs, (segment source.toList).parts = ps ++ .cut cut :: qs →
    ¬ InComment source.toList (ps.flatMap Part.toList ++ cut.lead)

theorem kept_infix_strip {source : String} {kept : List Char}
    (h : .kept kept ∈ (segment source.toList).parts) :
    kept <:+: (strip source).text.toList := by
  rw [toList_text_strip, Segmentation.marked]
  rcases List.mem_cons.1 h with heq | hmem
  · obtain rfl := Part.kept.inj heq
    split
    · exact List.infix_rfl
    · rw [List.append_assoc]
      exact (List.prefix_append _ _).isInfix
  · obtain ⟨piece, hpiece, hkept⟩ := List.mem_flatMap.1 hmem
    obtain rfl : kept = piece.2 := by simpa using hkept
    have htail : piece.2 <:+: (segment source.toList).tail :=
      List.infix_of_mem_flatten (List.mem_map_of_mem hpiece)
    split
    · next hnil =>
      rw [hnil] at hpiece
      cases hpiece
    · exact htail.trans (List.suffix_append _ _).isInfix

theorem flatMap_lexemes_toList (parts : List Part) :
    (parts.flatMap fun part => lexemes part.toList).flatMap Lexeme.toList =
      parts.flatMap Part.toList := by
  simp only [List.flatMap_assoc, flatMap_toList_lexemes]

theorem wellFormed_of_mem {s : List Char} {cut : Cut} (h : cut ∈ (segment s).cuts.map Prod.fst) :
    cut.WellFormed := by
  obtain ⟨piece, hpiece, rfl⟩ := List.mem_map.1 h
  exact (segment_wellFormed s piece hpiece).1

section Closed

variable {source : String}
  (hclosed : ∀ cut ∈ (segment source.toList).cuts.map Prod.fst, cut.Closed)

include hclosed

theorem whole_of_closed {before text : List Char} (h : IsComment source.toList before text) :
    ∃ ps part qs u v, (segment source.toList).parts = ps ++ part :: qs ∧
      part.toList = u ++ text ++ v ∧ before = ps.flatMap Part.toList ++ u ∧
      ∀ kept, part = .kept kept → kept <:+: (strip source).text.toList := by
  obtain ⟨ls, rs, hlex, rfl⟩ := h
  rw [lexemes_eq_flatMap_parts hclosed] at hlex
  obtain ⟨ps, part, qs, us, vs, hparts, hpart, rfl⟩ := exists_of_flatMap_eq_append_cons hlex
  refine ⟨ps, part, qs, us.flatMap Lexeme.toList, vs.flatMap Lexeme.toList, hparts, ?_, ?_, ?_⟩
  · rw [← flatMap_toList_lexemes part.toList, hpart]
    simp [Lexeme.toList]
  · rw [List.flatMap_append, flatMap_lexemes_toList]
  · rintro kept rfl
    exact kept_infix_strip (by rw [hparts]; simp)

/-- A character of a cut that is a lexeme of its own there is one in the whole source. -/
theorem not_inComment_of_cut {ps qs : List Part} {cut : Cut}
    (hparts : (segment source.toList).parts = ps ++ .cut cut :: qs) {us vs : List Lexeme} {c : Char}
    (hcut : lexemes cut.toList = us ++ .char c :: vs) :
    ¬ InComment source.toList (ps.flatMap Part.toList ++ us.flatMap Lexeme.toList) := by
  have hlex : lexemes source.toList = ((ps.flatMap fun part => lexemes part.toList) ++ us) ++
      .char c :: (vs ++ qs.flatMap fun part => lexemes part.toList) := by
    rw [lexemes_eq_flatMap_parts hclosed, hparts, List.flatMap_append, List.flatMap_cons,
      Part.toList, hcut]
    simp
  have hplace := not_inComment_of_char hlex
  rw [List.flatMap_append, flatMap_lexemes_toList] at hplace
  exact hplace

theorem ends_of_closed {ps qs : List Part} {cut : Cut}
    (hparts : (segment source.toList).parts = ps ++ .cut cut :: qs) :
    ¬ InComment source.toList (ps.flatMap Part.toList ++ (cut.opening ++ cut.body)) := by
  have hmem := Segmentation.cut_mem_parts_iff.1 (hparts ▸ List.mem_append_cons_self)
  obtain ⟨init, hinit⟩ := List.getLast?_eq_some_iff.1 (hclosed cut hmem)
  obtain ⟨stops, hstops, htext⟩ := (wellFormed_of_mem hmem).exists_toList
  have hopening := (wellFormed_of_mem hmem).slash_not_mem_opening
  have hlex : lexemes cut.toList =
      (lexemes cut.opening ++ init) ++ .char ';' :: lexemes stops := by
    rw [htext, splits_of_not_mem hopening, (hclosed cut hmem).splits_body, hinit]
    simp
  have hbody : init.flatMap Lexeme.toList = cut.body := by
    have hflat := flatMap_toList_lexemes (cut.body ++ [';'])
    rw [hinit, List.flatMap_append] at hflat
    exact (List.append_inj' hflat rfl).1
  have hplace := not_inComment_of_cut hclosed hparts hlex
  rw [List.flatMap_append, flatMap_toList_lexemes, hbody] at hplace
  exact hplace

theorem opens_of_closed {ps qs : List Part} {cut : Cut}
    (hparts : (segment source.toList).parts = ps ++ .cut cut :: qs) :
    ¬ InComment source.toList (ps.flatMap Part.toList ++ cut.lead) := by
  have hmem := Segmentation.cut_mem_parts_iff.1 (hparts ▸ List.mem_append_cons_self)
  obtain ⟨stops, -, htext⟩ := (wellFormed_of_mem hmem).exists_toList
  have hopening := (wellFormed_of_mem hmem).slash_not_mem_opening
  obtain ⟨c, word, hword⟩ := List.exists_cons_of_ne_nil cut.qualifier.word_ne_nil
  have hlex : lexemes cut.toList = cut.lead.map .char ++
      .char c :: ((word ++ cut.gap).map .char ++ lexemes ((cut.body ++ [';']) ++ stops)) := by
    rw [htext, splits_of_not_mem hopening, lexemes_of_not_mem hopening, Cut.opening, hword]
    simp
  have hlead : (cut.lead.map Lexeme.char).flatMap Lexeme.toList = cut.lead := by
    simp [List.flatMap_map, Lexeme.toList]
  have hplace := not_inComment_of_cut hclosed hparts hlex
  rw [hlead] at hplace
  exact hplace

end Closed

theorem closed_of_ends {s : List Char}
    (h : ∀ ps cut qs, (segment s).parts = ps ++ .cut cut :: qs →
      ¬ InComment s (ps.flatMap Part.toList ++ (cut.opening ++ cut.body))) :
    ∀ cut ∈ (segment s).cuts.map Prod.fst, cut.Closed := by
  -- behind a closed declaration the lexemes start anew, so the first open one contradicts `h`
  induction s using segment_induction with
  | plain s hplain =>
    rw [hplain]
    simp
  | cut kept cut rest hleads hread hsegment ih =>
    rw [hsegment, Segmentation.parts_keep_remove] at h
    obtain ⟨-, wf, -⟩ := Cut.read?_eq_some_iff.1 hread
    have hkept := hleads.startsStatement.splits
    have hcut : cut.Closed := by
      by_contra hopen
      apply h [.kept kept] cut _ rfl
      have hplace := (cut.inComment_of_not_closed wf hopen rest).append_left hkept
      simpa [Part.toList] using hplace
    have hrest : ∀ cut ∈ (segment rest).cuts.map Prod.fst, cut.Closed := by
      apply ih
      intro ps other qs hparts hin
      apply h (.kept kept :: .cut cut :: ps) other qs (by rw [hparts]; rfl)
      have hplace := (hin.append_left (hcut.splits wf)).append_left hkept
      simpa [Part.toList] using hplace
    intro other hother
    rw [hsegment] at hother
    rcases List.mem_cons.1 hother with rfl | hother
    · exact hcut
    · exact hrest other hother

/-- The comments of a source stay intact if and only if every declaration that is cut out has closed
its comments at its first semicolon. -/
theorem commentsIntact_iff (source : String) :
    CommentsIntact source ↔ ∀ cut ∈ (segment source.toList).cuts.map Prod.fst, cut.Closed := by
  constructor
  · intro h
    exact closed_of_ends h.ends
  · intro h
    exact {
      whole := fun _ _ hcomment => whole_of_closed h hcomment
      ends := fun _ _ _ hparts => ends_of_closed h hparts
      opens := fun _ _ _ hparts => opens_of_closed h hparts }

/-- A declaration with a comment that holds a semicolon and another declaration. -/
def commentedDeclaration : String :=
  "uniform float a /* b; uniform float c; */;\nvoid main() \x7b\x7d\n"

theorem not_commentsIntact_commentedDeclaration :
    strip commentedDeclaration = ⟨"@@@\n */;\nvoid main() \x7b\x7d\n", [], [], [],
      ["float a /* b", "float c"]⟩ ∧
    IsComment commentedDeclaration.toList "uniform float a ".toList
      "/* b; uniform float c; */".toList ∧
    ¬ CommentsIntact commentedDeclaration := by
  refine ⟨by decide +kernel, ?_, ?_⟩
  · refine ⟨"uniform float a ".toList.map .char, lexemes ";\nvoid main() \x7b\x7d\n".toList, ?_, ?_⟩
    · decide +kernel
    · decide +kernel
  · intro h
    have hclosed := closed_of_ends h.ends
    have hopen : ¬ ∀ cut ∈ (segment commentedDeclaration.toList).cuts.map Prod.fst,
        (lexemes (cut.body ++ [';'])).getLast? = some (.char ';') := by
      decide +kernel
    exact hopen hclosed

end GlslLayout.Source
