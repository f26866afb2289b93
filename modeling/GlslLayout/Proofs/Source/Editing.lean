import GlslLayout.Proofs.Source.Search
import Mathlib.Logic.Relation

/-!
Stripping a source in place, with a cursor of bytes.

* `Edit`: a source under edit.
* `skipFrom?`: a slice of the text from a byte index on, which may fail.
* `Edit.round?`, `Edit.next?`: what a round comes upon, and what it does with its byte indices.
* `Places.Within`: the indices stand in order between the characters of the text.
* `Edit.Splits`, `Edit.Stands`: what is done and what is left make up the divided source.
* `Edit.Stands.stops_or_rounds`: what one round can do; `Edit.Stands.ends`: what all rounds come to.
* `strip_by_cursor`: the rounds end with the stripped source, and every index on the way is sound.
-/

namespace GlslLayout.Source

set_option autoImplicit false

/-! ## Rounds -/

/-- A source in the middle of being stripped. -/
structure Edit where
  text : List Char
  /-- The byte index up to which the text is done. -/
  cursor : Nat
  /-- What the next cut leaves behind. -/
  replacement : List Char
  declared : Qualifier → List String

/-- The byte indices of a declaration. -/
structure Places where
  qualifier : Qualifier
  /-- The start of the cut. -/
  start : Nat
  /-- The end of the qualifier. -/
  stop : Nat
  /-- The start of the body. -/
  body : Nat
  /-- The first semicolon. -/
  terminator : Nat
  /-- The end of the cut. -/
  cutEnd : Nat
  deriving DecidableEq, Repr

/-- What a round comes upon. -/
inductive Round where
  /-- No qualifier is left. -/
  | ended
  /-- A qualifier has no semicolon behind it. -/
  | unterminated
  | declaration (places : Places)
  deriving DecidableEq, Repr

/-- The index behind the run of bytes from `i` on that pass a test. The text is sliced at `i`, which
fails if that is not between two characters. -/
def skipFrom? (P : UInt8 → Bool) (text : List Char) (i : Nat) : Option Nat :=
  (splitAtByte? text i).map fun parts => i + ((bytes parts.2).takeWhile P).length

namespace Edit

def ofSource (source : String) : Edit :=
  ⟨source.toList, 0, markLine, fun _ => []⟩

/-- The number of bytes behind the cursor. -/
def remaining (e : Edit) : Nat :=
  (bytes e.text).length - e.cursor

/-- What the next round comes upon. It fails if it slices the text at an index that is not between
two characters. -/
def round? (e : Edit) : Option Round :=
  match findKeyword (bytes e.text) e.cursor e.cursor true with
  | none => some .ended
  | some found => do
    let body ← skipFrom? (onByte isGap) e.text found.stop
    let terminator ← skipFrom? (fun b => !onByte (· == ';') b) e.text body
    if (bytes e.text).length ≤ terminator then return .unterminated
    let cutEnd ← skipFrom? (onByte (· == ';')) e.text terminator
    return .declaration ⟨found.qualifier, found.start, found.stop, body, terminator, cutEnd⟩

/-- Takes note of a declaration. -/
def declare (e : Edit) (qualifier : Qualifier) (body : List Char) : Qualifier → List String :=
  fun q => if q = qualifier then e.declared q ++ [String.ofList (Text.trim body)] else e.declared q

/-- What a round does with its indices. An empty body is passed; else the declaration is cut out.
The round fails if an index to cut at is not between two characters. -/
def next? (e : Edit) (p : Places) : Option Edit :=
  if p.terminator = p.body then some { e with cursor := p.terminator + 1 }
  else
    (between? e.text p.body p.terminator).bind fun inner =>
      (between? e.text p.start p.cutEnd).map fun outer =>
        { text := outer.1 ++ e.replacement ++ outer.2.2
          cursor := p.start + (bytes e.replacement).length
          replacement := []
          declared := e.declare p.qualifier inner.2.1 }

/-- One round that does not stop. -/
def Step (e e' : Edit) : Prop :=
  ∃ p, e.round? = some (.declaration p) ∧ e.next? p = some e'

/-- The source as it is now. -/
def stripped (e : Edit) : Stripped where
  text := String.ofList e.text
  attributes := e.declared .input
  varyings := e.declared .varying
  outputs := e.declared .output
  uniforms := e.declared .uniform

end Edit

/-! ## What stands behind a qualifier -/

/-- The parts behind a qualifier, whether they make a declaration or not, and what follows them. -/
def Cut.behind (lead : List Char) (q : Qualifier) (s : List Char) : Cut × List Char :=
  let text := s.dropWhile isGap
  let tail := text.dropWhile (· != ';')
  (⟨lead, q, s.takeWhile isGap, text.takeWhile (· != ';'), tail.takeWhile (· == ';')⟩,
    tail.dropWhile (· == ';'))

theorem Cut.toList_behind (lead : List Char) (q : Qualifier) (s : List Char) :
    (behind lead q s).1.toList ++ (behind lead q s).2 = lead ++ (q.word ++ s) := by
  simp [behind, Cut.toList, List.takeWhile_append_dropWhile]

theorem exists_dropWhile_eq_semicolon {s : List Char} (h : s.dropWhile (· != ';') ≠ []) :
    ∃ more, s.dropWhile (· != ';') = ';' :: more := by
  obtain ⟨c, more, hc⟩ := List.exists_cons_of_ne_nil h
  have hstop : (c != ';') = false :=
    Text.head?_dropWhile_eq_false (p := (· != ';')) (l := s) (by rw [hc]; rfl)
  obtain rfl : c = ';' := by simpa using hstop
  exact ⟨more, hc⟩

theorem Cut.stops_behind_eq_nil_iff {lead s : List Char} {q : Qualifier} :
    (behind lead q s).1.stops = [] ↔ (s.dropWhile isGap).dropWhile (· != ';') = [] := by
  constructor
  · intro h
    by_contra htail
    obtain ⟨more, hmore⟩ := exists_dropWhile_eq_semicolon htail
    simp [behind, hmore] at h
  · intro h
    simp only [behind, h, List.takeWhile_nil]

theorem Cut.readBody?_eq_behind (lead : List Char) (q : Qualifier) (s : List Char) :
    readBody? lead q s =
      if (behind lead q s).1.body = [] ∨ (behind lead q s).1.stops = [] then none
      else some (behind lead q s) := by
  simp only [readBody?, stops_behind_eq_nil_iff, Bool.or_eq_true, List.isEmpty_iff]
  rfl

theorem Cut.behind_of_empty {lead s : List Char} {q : Qualifier}
    (hbody : (behind lead q s).1.body = []) (hstops : (behind lead q s).1.stops ≠ []) :
    ∃ more, s = (behind lead q s).1.gap ++ ';' :: more := by
  have hbody : (s.dropWhile isGap).takeWhile (· != ';') = [] := hbody
  obtain ⟨more, hmore⟩ := exists_dropWhile_eq_semicolon (mt stops_behind_eq_nil_iff.2 hstops)
  have htext : s.dropWhile isGap = ';' :: more := by
    rw [← hmore, ← List.nil_append ((s.dropWhile isGap).dropWhile _), ← hbody,
      List.takeWhile_append_dropWhile]
  refine ⟨more, ?_⟩
  rw [← htext]
  exact List.takeWhile_append_dropWhile.symm

theorem segmentFrom_of_no_semicolon {s : List Char} (h : ';' ∉ s) (atStart : Bool) :
    segmentFrom atStart s = ⟨s, []⟩ := by
  rcases plain_or_leadsTo atStart s with hplain | ⟨kept, cut, rest, rfl, hleads, -⟩
  · exact hplain
  · exact absurd (List.mem_append_right kept hleads.semicolon_mem) h

section Behind

variable {lead tail : List Char} {q : Qualifier}

theorem Cut.read?_behind (hlead : ∀ c ∈ lead, isGap c = true)
    (hwhole : ∀ c ∈ tail.head?, isWordChar c = false) :
    Cut.read? (lead ++ (q.word ++ tail)) =
      if (behind lead q tail).1.body = [] ∨ (behind lead q tail).1.stops = [] then none
      else some (behind lead q tail) := by
  rw [Cut.read?_word hlead (fun c hc => isWordChar_of_mem_word hc) q.word_ne_nil hwhole,
    Qualifier.ofWord?_eq_some_iff.2 rfl, Option.bind_some, Cut.readBody?_eq_behind]

/-- Without a semicolon behind the qualifier all is kept. -/
theorem segmentFrom_of_unterminated (hlead : ∀ c ∈ lead, isGap c = true)
    (h : (Cut.behind lead q tail).1.stops = []) :
    segmentFrom true (lead ++ (q.word ++ tail)) = ⟨lead ++ (q.word ++ tail), []⟩ := by
  apply segmentFrom_of_no_semicolon
  have hgap : ∀ l : List Char, (∀ c ∈ l, isGap c = true) → ';' ∉ l := by
    intro l hl hmem
    exact absurd (hl ';' hmem) (by decide)
  have hword : ';' ∉ q.word := fun hmem => absurd (isWordChar_of_mem_word hmem) (by decide)
  have htail : ';' ∉ tail := by
    intro hmem
    have hdrop := Text.mem_dropWhile_of_stop (p := isGap) hmem (by decide)
    have hlast := Text.mem_dropWhile_of_stop (p := (· != ';')) hdrop (by decide)
    rw [Cut.stops_behind_eq_nil_iff.1 h] at hlast
    cases hlast
  simp only [List.mem_append, not_or]
  exact ⟨hgap lead hlead, hword, htail⟩

/-- Without a body all is kept up to the first semicolon. -/
theorem segmentFrom_of_empty (hlead : ∀ c ∈ lead, isGap c = true)
    (hwhole : ∀ c ∈ tail.head?, isWordChar c = false)
    (hbody : (Cut.behind lead q tail).1.body = []) {gap rest : List Char}
    (hgap : ∀ c ∈ gap, isGap c = true) (htail : tail = gap ++ ';' :: rest) :
    segmentFrom true (lead ++ (q.word ++ tail)) =
      (segment rest).keep (lead ++ (q.word ++ (gap ++ [';']))) := by
  have hword : ∀ c ∈ q.word, isWordChar c = true := fun c hc => isWordChar_of_mem_word hc
  have hread : Cut.read? (q.word ++ tail) = none := by
    rw [← List.nil_append (q.word ++ tail), Cut.read?_behind (by simp) hwhole]
    exact if_pos (Or.inl hbody)
  have hplain : ∀ c ∈ gap, isPlain c = true := by
    intro c hc
    rcases Bool.or_eq_true_iff.1 (hgap c hc) with h | h <;> rw [beq_iff_eq.1 h] <;> decide
  have hbreak : segmentFrom false ([';'] ++ rest) = (segment rest).keep [';'] :=
    passes_boundary (by decide) false rest
  rw [(segmentFrom_gaps hlead hread).2, segmentFrom_word hword q.word_ne_nil fun _ => hread, htail,
    segmentFrom_plain hplain, ← List.singleton_append, hbreak]
  simp only [Segmentation.keep_keep]

/-- With a body and a semicolon a declaration is cut out. -/
theorem segmentFrom_of_declared (hlead : ∀ c ∈ lead, isGap c = true)
    (hwhole : ∀ c ∈ tail.head?, isWordChar c = false)
    (hbody : (Cut.behind lead q tail).1.body ≠ [])
    (hstops : (Cut.behind lead q tail).1.stops ≠ []) :
    segmentFrom true (lead ++ (q.word ++ tail)) =
      (segment (Cut.behind lead q tail).2).remove (Cut.behind lead q tail).1 := by
  apply segmentFrom_of_cut
  rw [Cut.read?_behind hlead hwhole, if_neg (not_or.2 ⟨hbody, hstops⟩)]

end Behind

/-! ## The indices of a round -/

theorem skipFrom?_append {P : UInt8 → Bool} {p : Char → Bool} (h : Tracks P p)
    {text front s : List Char} (htext : text = front ++ s) :
    skipFrom? P text (bytes front).length = some (bytes (front ++ s.takeWhile p)).length := by
  rw [skipFrom?, splitAtByte?_eq_some_iff.2 ⟨htext, rfl⟩, Option.map_some, takeWhile_bytes h,
    bytes_append, List.length_append]

/-- The indices of a declaration that stands behind `front`. -/
def Places.ofCut (front : List Char) (cut : Cut) : Places :=
  let stop := front ++ (cut.lead ++ cut.qualifier.word)
  { qualifier := cut.qualifier
    start := (bytes front).length
    stop := (bytes stop).length
    body := (bytes (stop ++ cut.gap)).length
    terminator := (bytes (stop ++ cut.gap ++ cut.body)).length
    cutEnd := (bytes (stop ++ cut.gap ++ cut.body ++ cut.stops)).length }

/-- The indices of a round are in order, and all of them between the characters of the text. -/
structure Places.Within (p : Places) (text : List Char) : Prop where
  start : IsIndex text p.start
  stop : IsIndex text p.stop
  body : IsIndex text p.body
  terminator : IsIndex text p.terminator
  cutEnd : IsIndex text p.cutEnd
  ordered : p.start < p.stop ∧ p.stop ≤ p.body ∧ p.body ≤ p.terminator ∧ p.terminator < p.cutEnd

theorem Places.within_ofCut (front rest : List Char) {cut : Cut} (h : cut.stops ≠ []) :
    (ofCut front cut).Within (front ++ (cut.toList ++ rest)) := by
  have hindex : ∀ before after : List Char, front ++ (cut.toList ++ rest) = before ++ after →
      IsIndex (front ++ (cut.toList ++ rest)) (bytes before).length := by
    intro before after hsplit
    rw [hsplit]
    exact isIndex_append before after
  have hword := List.length_pos_iff.2 fun hnil => cut.qualifier.word_ne_nil (bytes_inj.1 hnil)
  have hstops := List.length_pos_iff.2 fun hnil => h (bytes_inj.1 hnil)
  exact {
    start := isIndex_append front _
    stop := hindex _ (cut.gap ++ cut.body ++ cut.stops ++ rest) (by simp [Cut.toList])
    body := hindex _ (cut.body ++ cut.stops ++ rest) (by simp [Cut.toList])
    terminator := hindex _ (cut.stops ++ rest) (by simp [Cut.toList])
    cutEnd := hindex _ rest (by simp [Cut.toList])
    ordered := by
      simp only [ofCut, bytes_append, List.length_append]
      omega }

namespace Edit

variable {e : Edit} {done rest : List Char}

theorem findKeyword_of_searchAt (htext : e.text = done ++ rest)
    (hcursor : e.cursor = (bytes done).length) :
    findKeyword (bytes e.text) e.cursor e.cursor true =
      searchAt (bytes done).length done rest true := by
  rw [searchAt, htext, hcursor]

/-- Where the qualifier is found: behind what is kept and the gap. -/
theorem findKeyword_of_ahead (htext : e.text = done ++ rest)
    (hcursor : e.cursor = (bytes done).length) {kept lead tail : List Char} {q : Qualifier}
    (hahead : Ahead true rest kept lead q tail)
    (h : searchAt (bytes done).length done rest true =
      some ⟨q,
        backOver (bytes (done ++ rest)) (bytes done).length (bytes (done ++ (kept ++ lead))).length,
        (bytes (done ++ (kept ++ lead ++ q.word))).length⟩) :
    findKeyword (bytes e.text) e.cursor e.cursor true =
      some ⟨q, (bytes (done ++ kept)).length,
        (bytes (done ++ kept ++ (lead ++ q.word))).length⟩ := by
  have hback : backOver (bytes (done ++ rest)) (bytes done).length
      (bytes (done ++ (kept ++ lead))).length = (bytes (done ++ kept)).length := by
    rw [hahead.text]
    exact backOver_append done kept _ hahead.lead_gap hahead.kept_last
  have hstop : done ++ (kept ++ lead ++ q.word) = done ++ kept ++ (lead ++ q.word) := by
    simp only [List.append_assoc]
  rw [findKeyword_of_searchAt htext hcursor, h, hback, hstop]

section Found

variable {kept lead tail : List Char} {q : Qualifier}

/-- What stands behind a qualifier is sliced soundly, whether it is a declaration or not. -/
theorem round?_of_found (htext : e.text = done ++ kept ++ (lead ++ q.word) ++ tail)
    (h : findKeyword (bytes e.text) e.cursor e.cursor true =
      some ⟨q, (bytes (done ++ kept)).length, (bytes (done ++ kept ++ (lead ++ q.word))).length⟩) :
    e.round? =
      if (Cut.behind lead q tail).1.stops = [] then some .unterminated
      else some (.declaration (.ofCut (done ++ kept) (Cut.behind lead q tail).1)) := by
  -- the text read further and further: behind the qualifier, the gap and the body
  have hgap : e.text = done ++ kept ++ (lead ++ q.word) ++ tail.takeWhile isGap ++
      tail.dropWhile isGap := by
    rw [htext, List.append_assoc _ (tail.takeWhile isGap), List.takeWhile_append_dropWhile]
  have hbody : e.text = done ++ kept ++ (lead ++ q.word) ++ tail.takeWhile isGap ++
      (tail.dropWhile isGap).takeWhile (· != ';') ++
      (tail.dropWhile isGap).dropWhile (· != ';') := by
    rw [hgap, List.append_assoc _ ((tail.dropWhile isGap).takeWhile (· != ';')),
      List.takeWhile_append_dropWhile]
  have hsemicolon : Tracks (onByte (· == ';')) (· == ';') := (isAscii_beq (by decide)).tracks
  have hnotSemicolon : Tracks (fun b => !onByte (· == ';') b) (· != ';') := hsemicolon.not
  have hskipGap := skipFrom?_append isAscii_isGap.tracks htext
  have hskipBody := skipFrom?_append hnotSemicolon hgap
  have hskipStops := skipFrom?_append hsemicolon hbody
  have hended : (bytes e.text).length ≤ (bytes (done ++ kept ++ (lead ++ q.word) ++
      tail.takeWhile isGap ++ (tail.dropWhile isGap).takeWhile (· != ';'))).length ↔
      (Cut.behind lead q tail).1.stops = [] := by
    rw [hbody, bytes_append _ ((tail.dropWhile isGap).dropWhile (· != ';')), List.length_append,
      Cut.stops_behind_eq_nil_iff, ← bytes_inj, bytes_nil, ← List.length_eq_zero_iff]
    omega
  simp only [round?, h, hskipGap, hskipBody, hskipStops, hended, Option.bind_eq_bind,
    Option.bind_some]
  rfl

end Found

theorem next?_of_empty (front : List Char) {cut : Cut} (h : cut.body = []) :
    e.next? (.ofCut front cut) =
      some { e with cursor := (Places.ofCut front cut).body + 1 } := by
  simp [next?, Places.ofCut, h]

theorem next?_of_body {front after : List Char} {cut : Cut}
    (htext : e.text = front ++ (cut.toList ++ after)) (h : cut.body ≠ []) :
    e.next? (.ofCut front cut) =
      some ⟨front ++ e.replacement ++ after, (bytes (front ++ e.replacement)).length, [],
        e.declare cut.qualifier cut.body⟩ := by
  have hne : (Places.ofCut front cut).terminator ≠ (Places.ofCut front cut).body := by
    have hbody := List.length_pos_iff.2 fun hnil => h (bytes_inj.1 hnil)
    simp only [Places.ofCut, bytes_append _ cut.body, List.length_append]
    omega
  have hinner :
      between? e.text (Places.ofCut front cut).body (Places.ofCut front cut).terminator =
        some (front ++ (cut.lead ++ cut.qualifier.word) ++ cut.gap, cut.body,
          cut.stops ++ after) := by
    have htext' : e.text = front ++ (cut.lead ++ cut.qualifier.word) ++ cut.gap ++ cut.body ++
        (cut.stops ++ after) := by simp [htext, Cut.toList]
    rw [htext']
    exact between?_append _ _ _
  have houter : between? e.text (Places.ofCut front cut).start (Places.ofCut front cut).cutEnd =
      some (front, cut.toList, after) := by
    have hend : (Places.ofCut front cut).cutEnd = (bytes (front ++ cut.toList)).length := by
      simp only [Places.ofCut, Cut.toList, List.append_assoc]
    rw [hend, htext, ← List.append_assoc]
    exact between?_append _ _ _
  rw [next?, if_neg hne, hinner, Option.bind_some, houter, Option.map_some]
  simp [Places.ofCut]

end Edit

/-! ## What is left to do -/

namespace Segmentation

/-- The kept text, with the given text where the first cut was. -/
def filled (g : Segmentation) (text : List Char) : List Char :=
  match g.cuts with
  | [] => g.head
  | _ :: _ => g.head ++ text ++ g.tail

theorem filled_keep (g : Segmentation) (kept text : List Char) :
    (g.keep kept).filled text = kept ++ g.filled text := by
  unfold filled keep tail
  cases g.cuts <;> simp

theorem filled_remove (g : Segmentation) (cut : Cut) (text : List Char) :
    (g.remove cut).filled text = text ++ g.filled [] := by
  unfold filled remove tail
  cases g.cuts <;> simp

theorem declarations_keep (g : Segmentation) (kept : List Char) (q : Qualifier) :
    (g.keep kept).declarations q = g.declarations q := rfl

theorem declarations_remove (g : Segmentation) (cut : Cut) (q : Qualifier) :
    (g.remove cut).declarations q =
      (if q = cut.qualifier then [String.ofList (Text.trim cut.body)] else []) ++
        g.declarations q := by
  by_cases h : q = cut.qualifier
  · simp [declarations, bodies, remove, h]
  · simp [declarations, bodies, remove, h, Ne.symm h]

end Segmentation

namespace Edit

/-- `Splits source e done rest`: the edited text is done up to the cursor, which stands between
`done` and `rest`. What is done, together with what `rest` is divided into, makes up what the source
is divided into. -/
structure Splits (source : List Char) (e : Edit) (done rest : List Char) : Prop where
  text : e.text = done ++ rest
  cursor : e.cursor = (bytes done).length
  marked : (segment source).marked = done ++ (segment rest).filled e.replacement
  declared : ∀ q, (segment source).declarations q = e.declared q ++ (segment rest).declarations q

theorem splits_ofSource (source : String) :
    Splits source.toList (ofSource source) [] source.toList :=
  ⟨rfl, rfl, rfl, fun _ => rfl⟩

namespace Splits

variable {source done rest : List Char} {e : Edit}

theorem remaining_eq (h : Splits source e done rest) : e.remaining = (bytes rest).length := by
  rw [remaining, h.text, h.cursor, bytes_append, List.length_append, Nat.add_sub_cancel_left]

theorem isIndex_cursor (h : Splits source e done rest) : IsIndex e.text e.cursor := by
  rw [h.text, h.cursor]
  exact isIndex_append done rest

/-- Where no cut is left the edited text is the stripped source. -/
theorem stripped_eq (h : Splits source e done rest) (hplain : segment rest = ⟨rest, []⟩) :
    e.stripped = (segment source).stripped := by
  have htext : e.text = (segment source).marked := by
    rw [h.text, h.marked, hplain]
    rfl
  have hdeclared : ∀ q, e.declared q = (segment source).declarations q := by
    intro q
    rw [h.declared q, hplain]
    exact (List.append_nil _).symm
  simp only [stripped, Segmentation.stripped, htext, hdeclared]

theorem pass {passed after : List Char} (h : Splits source e done (passed ++ after))
    (hsegment : segment (passed ++ after) = (segment after).keep passed) :
    Splits source { e with cursor := (bytes (done ++ passed)).length } (done ++ passed) after where
  text := by rw [h.text, List.append_assoc]
  cursor := rfl
  marked := by rw [h.marked, hsegment, Segmentation.filled_keep, List.append_assoc]
  declared := fun q => by rw [h.declared q, hsegment, Segmentation.declarations_keep]

theorem cut {kept after : List Char} {cut : Cut}
    (h : Splits source e done (kept ++ (cut.toList ++ after)))
    (hsegment : segment (kept ++ (cut.toList ++ after)) = ((segment after).remove cut).keep kept) :
    Splits source
      ⟨done ++ kept ++ e.replacement ++ after, (bytes (done ++ kept ++ e.replacement)).length, [],
        e.declare cut.qualifier cut.body⟩
      (done ++ kept ++ e.replacement) after where
  text := rfl
  cursor := rfl
  marked := by
    rw [h.marked, hsegment, Segmentation.filled_keep, Segmentation.filled_remove]
    simp only [List.append_assoc]
  declared := fun q => by
    rw [h.declared q, hsegment, Segmentation.declarations_keep, Segmentation.declarations_remove]
    simp only [declare]
    split <;> simp

end Splits

/-- The cursor stands between what is done and what is left. -/
def Stands (source : List Char) (e : Edit) : Prop :=
  ∃ done rest, Splits source e done rest

/-- A round is made: all its indices are sound, and it goes on with fewer bytes behind the
cursor. -/
def Rounds (source : List Char) (e : Edit) : Prop :=
  ∃ p e', e.round? = some (.declaration p) ∧ p.Within e.text ∧ e.next? p = some e' ∧
    e'.remaining < e.remaining ∧ e'.Stands source

/-- A round stops: no declaration is left, and the edited text is the stripped source. -/
def Stops (source : List Char) (e : Edit) : Prop :=
  (e.round? = some .ended ∨ e.round? = some .unterminated) ∧
    e.stripped = (segment source).stripped

section Round

variable {source done kept lead tail : List Char} {e : Edit} {q : Qualifier}

theorem rounds_of_empty (h : Splits source e done (kept ++ (lead ++ (q.word ++ tail))))
    (hahead : Ahead true (kept ++ (lead ++ (q.word ++ tail))) kept lead q tail)
    (hround : e.round? =
      some (.declaration (.ofCut (done ++ kept) (Cut.behind lead q tail).1)))
    (hwithin : (Places.ofCut (done ++ kept) (Cut.behind lead q tail).1).Within e.text)
    (hbody : (Cut.behind lead q tail).1.body = [])
    (hstops : (Cut.behind lead q tail).1.stops ≠ []) : e.Rounds source := by
  obtain ⟨more, hmore⟩ := Cut.behind_of_empty hbody hstops
  have hgap : ∀ c ∈ (Cut.behind lead q tail).1.gap, isGap c = true := fun c hc =>
    List.mem_takeWhile_imp hc
  have hsegment := hahead.segmented
  rw [segmentFrom_of_empty hahead.lead_gap hahead.whole hbody hgap hmore,
    Segmentation.keep_keep] at hsegment
  have hnext := next?_of_empty (e := e) (done ++ kept) hbody
  have hcursor : (Places.ofCut (done ++ kept) (Cut.behind lead q tail).1).body + 1 =
      (bytes (done ++ (kept ++ (lead ++ (q.word ++
        ((Cut.behind lead q tail).1.gap ++ [';'])))))).length := by
    have hone : (bytes [';']).length = 1 := by decide
    have hlead : (Cut.behind lead q tail).1.lead = lead := rfl
    have hword : (Cut.behind lead q tail).1.qualifier = q := rfl
    simp only [Places.ofCut, bytes_append, List.length_append, hone, hlead, hword]
    omega
  rw [hcursor] at hnext
  have hpassed : kept ++ (lead ++ (q.word ++ tail)) =
      kept ++ (lead ++ (q.word ++ ((Cut.behind lead q tail).1.gap ++ [';']))) ++ more := by
    conv => lhs; rw [hmore]
    simp only [List.append_assoc, List.singleton_append]
  rw [hpassed] at h
  have hpass := h.pass (by rw [← hpassed]; exact hsegment)
  refine ⟨_, _, hround, hwithin, hnext, ?_, _, _, hpass⟩
  rw [h.remaining_eq, hpass.remaining_eq]
  exact length_bytes_lt (by simp) more

theorem rounds_of_body {after : List Char} {cut : Cut}
    (h : Splits source e done (kept ++ (cut.toList ++ after)))
    (hsegment : segment (kept ++ (cut.toList ++ after)) = ((segment after).remove cut).keep kept)
    (hround : e.round? = some (.declaration (.ofCut (done ++ kept) cut)))
    (hwithin : (Places.ofCut (done ++ kept) cut).Within e.text) (hbody : cut.body ≠ []) :
    e.Rounds source := by
  have hcut := h.cut hsegment
  have htext : e.text = done ++ kept ++ (cut.toList ++ after) := by rw [h.text, List.append_assoc]
  refine ⟨_, _, hround, hwithin, next?_of_body htext hbody, ?_, _, _, hcut⟩
  rw [h.remaining_eq, hcut.remaining_eq, ← List.append_assoc]
  exact length_bytes_lt (by simp [Cut.toList, hbody]) after

end Round

/-- What a round can do: it stops with the stripped source, or it is made. -/
theorem Stands.stops_or_rounds {source : List Char} {e : Edit} (h : e.Stands source) :
    e.Stops source ∨ e.Rounds source := by
  obtain ⟨done, rest, h⟩ := h
  rcases searched (bytes done).length done rest true with
    ⟨hnone, hplain⟩ | ⟨kept, lead, q, tail, hahead, hsearch⟩
  · left
    refine ⟨Or.inl ?_, h.stripped_eq hplain⟩
    simp only [round?, findKeyword_of_searchAt h.text h.cursor, hnone]
  · have hrest := hahead.text
    have htext : e.text = done ++ kept ++ (lead ++ q.word) ++ tail := by
      rw [h.text, hrest]
      simp only [List.append_assoc]
    have hround := round?_of_found htext (findKeyword_of_ahead h.text h.cursor hahead hsearch)
    have hsegment : segment rest = (segmentFrom true (lead ++ (q.word ++ tail))).keep kept :=
      hahead.segmented
    by_cases hstops : (Cut.behind lead q tail).1.stops = []
    · left
      rw [if_pos hstops] at hround
      rw [segmentFrom_of_unterminated hahead.lead_gap hstops] at hsegment
      refine ⟨Or.inr hround, h.stripped_eq ?_⟩
      rw [hsegment, hrest]
      rfl
    · right
      rw [if_neg hstops] at hround
      have hwithin := Places.within_ofCut (done ++ kept) (Cut.behind lead q tail).2 hstops
      rw [Cut.toList_behind, List.append_assoc, ← hrest, ← h.text] at hwithin
      subst hrest
      by_cases hbody : (Cut.behind lead q tail).1.body = []
      · exact rounds_of_empty h hahead hround hwithin hbody hstops
      · rw [segmentFrom_of_declared hahead.lead_gap hahead.whole hbody hstops] at hsegment
        rw [← Cut.toList_behind] at h hsegment
        exact rounds_of_body h hsegment hround hwithin hbody

/-- Wherever a qualifier is found, the text can be sliced in front of it and of its gap, behind it
and behind the blanks that follow. -/
theorem Stands.isIndex_of_found {source : List Char} {e : Edit} (h : e.Stands source)
    {found : KeywordAt} (hfound : findKeyword (bytes e.text) e.cursor e.cursor true = some found) :
    IsIndex e.text found.start ∧ IsIndex e.text found.stop ∧
      ∃ body, skipFrom? (onByte isGap) e.text found.stop = some body ∧ IsIndex e.text body := by
  obtain ⟨done, rest, h⟩ := h
  rcases searched (bytes done).length done rest true with
    ⟨hnone, -⟩ | ⟨kept, lead, q, tail, hahead, hsearch⟩
  · rw [findKeyword_of_searchAt h.text h.cursor, hnone] at hfound
    cases hfound
  · rw [findKeyword_of_ahead h.text h.cursor hahead hsearch] at hfound
    obtain rfl := Option.some.inj hfound
    have htext : e.text = done ++ kept ++ (lead ++ q.word) ++ tail := by
      rw [h.text, hahead.text]
      simp only [List.append_assoc]
    refine ⟨isIndex_iff.2 ⟨done ++ kept, lead ++ q.word ++ tail, ?_, rfl⟩,
      isIndex_iff.2 ⟨_, tail, htext, rfl⟩, _, skipFrom?_append isAscii_isGap.tracks htext,
      isIndex_iff.2 ⟨_, tail.dropWhile isGap, ?_, rfl⟩⟩
    · rw [htext, List.append_assoc]
    · rw [htext, List.append_assoc _ (tail.takeWhile isGap), List.takeWhile_append_dropWhile]

/-! ## All rounds -/

theorem Stops.round?_ne {source : List Char} {e : Edit} (h : e.Stops source) (p : Places) :
    e.round? ≠ some (.declaration p) := by
  intro hround
  rcases h.1 with hstop | hstop <;> rw [hstop] at hround <;> cases hround

theorem Stands.step {source : List Char} {e e' : Edit} (h : e.Stands source) (hstep : e.Step e') :
    e'.Stands source := by
  obtain ⟨p, hround, hnext⟩ := hstep
  rcases h.stops_or_rounds with hstops | ⟨p', e'', hround', -, hnext', -, hstands⟩
  · exact absurd hround (hstops.round?_ne p)
  · obtain rfl := Round.declaration.inj (Option.some.inj (hround.symm.trans hround'))
    obtain rfl := Option.some.inj (hnext.symm.trans hnext')
    exact hstands

theorem Stands.reached {source : List Char} {e e' : Edit} (h : e.Stands source)
    (hsteps : Relation.ReflTransGen Step e e') : e'.Stands source := by
  induction hsteps with
  | refl => exact h
  | tail _ hstep ih => exact ih.step hstep

/-- The rounds come to an end, and then the edited text is the stripped source. -/
theorem Stands.ends {source : List Char} {e : Edit} (h : e.Stands source) :
    ∃ last, Relation.ReflTransGen Step e last ∧ last.Stops source := by
  -- by the number of bytes behind the cursor
  induction hn : e.remaining using Nat.strong_induction_on generalizing e with
  | _ n ih =>
    rcases h.stops_or_rounds with hstops | ⟨p, e', hround, -, hnext, hlt, hstands⟩
    · exact ⟨e, .refl, hstops⟩
    · obtain ⟨last, hsteps, hlast⟩ := ih e'.remaining (hn ▸ hlt) hstands rfl
      exact ⟨last, .head ⟨p, hround, hnext⟩ hsteps, hlast⟩

end Edit

/-- Stripping in place with a cursor ends and never slices badly. When the search goes on it is at
least one byte further and not behind the end. In every state that the rounds reach, the cursor is
an index between two characters, and if a qualifier is found then so are the start of the cut, the
end of the qualifier and the start of the body, with or without a semicolon behind them. No slice of
the next round fails; if it comes upon a declaration then all its indices are sound, and the round
is made and leaves fewer bytes behind the cursor. And the rounds reach an end, with the source
stripped. -/
theorem strip_by_cursor (source : String) :
    (∀ (src : List UInt8) (origin pos count : Nat) (atStart next : Bool),
      look atStart (src.drop pos) = .skip count next →
        findKeyword src origin pos atStart = findKeyword src origin (pos + count) next ∧
          pos < pos + count ∧ pos + count ≤ src.length) ∧
    (∀ e, Relation.ReflTransGen Edit.Step (.ofSource source) e →
      IsIndex e.text e.cursor ∧
      (∀ found, findKeyword (bytes e.text) e.cursor e.cursor true = some found →
        IsIndex e.text found.start ∧ IsIndex e.text found.stop ∧
          ∃ body, skipFrom? (onByte isGap) e.text found.stop = some body ∧ IsIndex e.text body) ∧
      ∃ round, e.round? = some round ∧ ∀ p, round = .declaration p →
        p.Within e.text ∧ ∃ e', e.next? p = some e' ∧ e'.remaining < e.remaining) ∧
    ∃ e, Relation.ReflTransGen Edit.Step (.ofSource source) e ∧
      (e.round? = some .ended ∨ e.round? = some .unterminated) ∧ e.stripped = strip source := by
  have hstands : (Edit.ofSource source).Stands source.toList := ⟨_, _, Edit.splits_ofSource source⟩
  refine ⟨?_, ?_, hstands.ends⟩
  · intro src origin pos count atStart next hlook
    exact ⟨findKeyword_of_skip hlook origin, skip_bounds hlook⟩
  · intro e hsteps
    have he := hstands.reached hsteps
    refine ⟨?_, fun found hfound => he.isIndex_of_found hfound, ?_⟩
    · obtain ⟨done, rest, h⟩ := he
      exact h.isIndex_cursor
    · rcases he.stops_or_rounds with ⟨hended | hunterminated, -⟩ |
        ⟨p, e', hround, hwithin, hnext, hlt, -⟩
      · exact ⟨_, hended, fun p hp => nomatch hp⟩
      · exact ⟨_, hunterminated, fun p hp => nomatch hp⟩
      · refine ⟨_, hround, fun p' hp => ?_⟩
        obtain rfl := Round.declaration.inj hp
        exact ⟨hwithin, e', hnext, hlt⟩

/-- A source with a character of two bytes, a qualifier without a body and a declaration. -/
def accented : String := "// é\n  uniform ;out  vec4 c;;"

/-- A source that ends in the middle of a declaration. -/
def unfinished : String := "é;\n uniform  vec4 ü"

theorem strip_by_cursor_accented :
    (Edit.ofSource accented).round? = some (.declaration ⟨.uniform, 6, 15, 16, 16, 17⟩) ∧
      (⟨.uniform, 6, 15, 16, 16, 17⟩ : Places).Within accented.toList ∧
      ¬ IsIndex accented.toList 4 ∧
    (Edit.ofSource unfinished).round? = some .unterminated ∧
      IsIndex unfinished.toList 4 ∧ IsIndex unfinished.toList 12 ∧
      (∃ body, skipFrom? (onByte isGap) unfinished.toList 12 = some body ∧
        IsIndex unfinished.toList body) ∧
      skipFrom? (onByte isGap) unfinished.toList 1 = none := by
  have hround : (Edit.ofSource accented).round? =
      some (.declaration ⟨.uniform, 6, 15, 16, 16, 17⟩) := by
    decide +kernel
  have hfound : findKeyword (bytes unfinished.toList) 0 0 true = some ⟨.uniform, 4, 12⟩ := by
    decide +kernel
  obtain ⟨-, -, round, hsame, hsound⟩ := (strip_by_cursor accented).2.1 _ .refl
  obtain rfl := Option.some.inj (hround.symm.trans hsame)
  obtain ⟨hstart, hstop, hbody⟩ := ((strip_by_cursor unfinished).2.1 _ .refl).2.1 _ hfound
  exact ⟨hround, (hsound _ rfl).1, by decide +kernel, by decide +kernel, hstart, hstop, hbody,
    by decide +kernel⟩

end GlslLayout.Source
