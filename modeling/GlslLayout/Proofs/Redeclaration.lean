import GlslLayout.Proofs.Mesh

/-!
The members of a block, declared once more as uniforms, give the same block.

* `Uniform.readDeclarator_written`: a name and an extent are read back from how a block writes them.
* `Uniform.declaration`, `Uniform.read_declaration`: the declaration of a value as a block writes
  it, and what it is read as.
* `MergedUniforms.ofStages_declarations`: merging such declarations drops none and reports nothing.
* `memberTexts`: the declarations in the text of the block of the mesh set.
* `MeshInterface.block_of_memberTexts`: they lead to the block that they were written for.
-/

namespace GlslLayout

set_option autoImplicit false

/-! ## Reading what a block writes -/

namespace Uniform

theorem not_isBlank_of_isArrayNameChar {c : Char} (h : isArrayNameChar c = true) :
    Text.isBlank c = false := by
  simp only [isArrayNameChar, Bool.or_eq_true, beq_iff_eq] at h
  rcases h with (h | rfl) | rfl
  · have hrange := Text.range_of_isAlphanum h
    simp only [Text.isBlank, Text.blankRanges, List.any_cons, List.any_nil, Bool.or_false,
      Bool.or_eq_false_iff, Bool.and_eq_false_iff, decide_eq_false_iff_not]
    omega
  · decide
  · decide

theorem not_isBlank_of_isDigit {c : Char} (h : c.isDigit = true) : Text.isBlank c = false :=
  not_isBlank_of_isArrayNameChar (by simp [isArrayNameChar, Char.isAlphanum, h])

theorem bracketed?_eq_some {text name size : List Char} (h : bracketed? text = some (name, size)) :
    name ≠ [] ∧ ∀ c ∈ name, isArrayNameChar c = true := by
  simp only [bracketed?] at h
  split at h
  · cases h
  · next hname =>
    obtain ⟨rfl, -⟩ := Prod.mk.inj (Option.some.inj h)
    simp only [Bool.or_eq_true, not_or, Bool.not_eq_true, Bool.not_eq_false'] at hname
    exact ⟨List.isEmpty_eq_false_iff.1 hname.1.1, List.all_eq_true.1 hname.1.2⟩

/-- White space around the brackets and around the size does not matter, nor does what follows. -/
theorem bracketed?_spaced {name before left digits right : List Char} (rest : List Char)
    (hname : name ≠ []) (hword : ∀ c ∈ name, isArrayNameChar c = true)
    (hdigits : ∀ c ∈ digits, c.isDigit = true) (hbefore : ∀ c ∈ before, Text.isBlank c = true)
    (hleft : ∀ c ∈ left, Text.isBlank c = true) (hright : ∀ c ∈ right, Text.isBlank c = true) :
    bracketed? (name ++ (before ++ '[' :: (left ++ (digits ++ (right ++ ']' :: rest))))) =
      some (name, digits) := by
  have hnameBlank : ∀ c ∈ name, Text.isBlank c = false := fun c hc =>
    not_isBlank_of_isArrayNameChar (hword c hc)
  have hdigitsBlank : ∀ c ∈ digits, Text.isBlank c = false := fun c hc =>
    not_isBlank_of_isDigit (hdigits c hc)
  have hopen : ∀ c ∈ name ++ before, (c != '[') = true := by
    intro c hc
    rw [bne_iff_ne]
    rintro rfl
    rcases List.mem_append.1 hc with hc | hc
    · exact absurd (hword _ hc) (by decide)
    · exact absurd (hbefore _ hc) (by decide)
  have hclose : ∀ c ∈ left ++ (digits ++ right), (c != ']') = true := by
    intro c hc
    rw [bne_iff_ne]
    rintro rfl
    rcases List.mem_append.1 hc with hc | hc
    · exact absurd (hleft _ hc) (by decide)
    · rcases List.mem_append.1 hc with hc | hc
      · exact absurd (hdigits _ hc) (by decide)
      · exact absurd (hright _ hc) (by decide)
  have hnonempty : name.isEmpty = false := List.isEmpty_eq_false_iff.2 hname
  have htext : left ++ (digits ++ (right ++ ']' :: rest)) =
      left ++ (digits ++ right) ++ ']' :: rest := by
    simp only [List.append_assoc]
  have htrimName : Text.trim (name ++ before) = name :=
    Text.trim_blanks_append (g := []) (by simp) hnameBlank hbefore
  simp only [bracketed?]
  rw [← List.append_assoc, Text.takeWhile_append_run hopen (by simp),
    Text.dropWhile_append_run hopen (by simp), List.drop_one, List.tail_cons, htext,
    Text.takeWhile_append_run hclose (by simp), htrimName,
    Text.trim_blanks_append hleft hdigitsBlank hright, hnonempty, List.all_eq_true.2 hword]
  simp

theorem readExtent_eq_ok_iff {type : String} {size : List Char} {extent : Extent} :
    readExtent type size = .ok extent ↔
      ∃ n h, Text.readCount? size = some n ∧ ValueType.strideOf type * n ≤ maxWord ∧
        extent = .array n h := by
  unfold readExtent
  cases Text.readCount? size with
  | none => simp
  | some n =>
    by_cases hn : 0 < n
    · by_cases hword : ValueType.strideOf type * n ≤ maxWord
      · simp [hn, inWord?, hword, eq_comm]
      · simp [hn, inWord?, hword]
    · simp [hn]

theorem readDeclarator_eq_ok_iff {type : String} {text name : List Char} {extent : Extent} :
    readDeclarator type text = .ok (name, extent) ↔
      ('[' ∉ text ∧ name ≠ [] ∧ name = (text.takeWhile fun c => c != ' ' && c != ',') ∧
        extent = .single) ∨
      ('[' ∈ text ∧ ∃ size, bracketed? text = some (name, size) ∧
        readExtent type size = .ok extent) := by
  unfold readDeclarator
  by_cases hbracket : '[' ∈ text
  · simp only [List.contains_eq_mem, hbracket, decide_true, if_true, not_true_eq_false, false_and,
      false_or, true_and]
    cases hparts : bracketed? text with
    | none => simp
    | some parts =>
      obtain ⟨name', size⟩ := parts
      cases hextent : readExtent type size with
      | error fault => simp [hextent]
      | ok extent' => simp [hextent]
  · simp only [List.contains_eq_mem, hbracket, decide_false, Bool.false_eq_true, if_false,
      not_false_eq_true, true_and, false_and, or_false]
    cases htake : text.takeWhile fun c => c != ' ' && c != ',' with
    | nil =>
      simp only [reduceCtorEq, false_iff]
      exact fun h => h.1 h.2.1
    | cons c tail =>
      simp only [Except.ok.injEq, Prod.mk.injEq]
      constructor
      · rintro ⟨rfl, rfl⟩
        exact ⟨List.cons_ne_nil c tail, rfl, rfl⟩
      · rintro ⟨-, rfl, rfl⟩
        exact ⟨rfl, rfl⟩

theorem name_of_readDeclarator {type : String} {text name : List Char} {extent : Extent}
    (hspace : ∀ c ∈ text, Text.isBlank c = true → c = ' ')
    (h : readDeclarator type text = .ok (name, extent)) :
    name ≠ [] ∧ ∀ c ∈ name, Text.isBlank c = false ∧ c ≠ '[' ∧ c ≠ ',' := by
  rcases readDeclarator_eq_ok_iff.1 h with ⟨hbracket, hname, htake, -⟩ | ⟨-, size, hparts, -⟩
  · refine ⟨hname, fun c hc => ?_⟩
    rw [htake] at hc
    have htext := (List.takeWhile_sublist _).subset hc
    have hkept := List.mem_takeWhile_imp hc
    rw [Bool.and_eq_true, bne_iff_ne, bne_iff_ne] at hkept
    refine ⟨?_, fun hopen => hbracket (hopen ▸ htext), hkept.2⟩
    rw [← Bool.not_eq_true]
    exact fun hblank => hkept.1 (hspace c htext hblank)
  · obtain ⟨hname, hword⟩ := bracketed?_eq_some hparts
    refine ⟨hname, fun c hc => ⟨not_isBlank_of_isArrayNameChar (hword c hc), ?_, ?_⟩⟩
    · rintro rfl
      exact absurd (hword _ hc) (by decide)
    · rintro rfl
      exact absurd (hword _ hc) (by decide)

theorem toList_brackets_array (n : Nat) (h : 0 < n) :
    (Extent.array n h).brackets.toList = '[' :: ((toString n).toList ++ [']']) := by
  simp [Extent.brackets]

/-- A name and its extent are read back from how a block writes them. -/
theorem readDeclarator_written {type : String} {text name : List Char} {extent : Extent}
    (hspace : ∀ c ∈ text, Text.isBlank c = true → c = ' ')
    (h : readDeclarator type text = .ok (name, extent)) :
    readDeclarator type (name ++ extent.brackets.toList) = .ok (name, extent) := by
  obtain ⟨hname, hchars⟩ := name_of_readDeclarator hspace h
  rw [readDeclarator_eq_ok_iff]
  rcases readDeclarator_eq_ok_iff.1 h with ⟨-, -, -, rfl⟩ | ⟨-, size, hparts, hextent⟩
  · have hnone : name ++ Extent.single.brackets.toList = name := by simp [Extent.brackets]
    rw [hnone]
    refine Or.inl ⟨fun hmem => (hchars _ hmem).2.1 rfl, hname, ?_, rfl⟩
    symm
    rw [List.takeWhile_eq_self_iff]
    intro c hc
    obtain ⟨hblank, -, hcomma⟩ := hchars c hc
    rw [Bool.and_eq_true, bne_iff_ne, bne_iff_ne]
    refine ⟨?_, hcomma⟩
    rintro rfl
    exact absurd hblank (by decide)
  · obtain ⟨n, hn, hcount, hfits, rfl⟩ := readExtent_eq_ok_iff.1 hextent
    obtain ⟨-, -, hword⟩ := Text.readCount?_eq_some_iff.1 hcount
    rw [toList_brackets_array]
    have hnone : ∀ c ∈ ([] : List Char), Text.isBlank c = true := by simp
    have hdigits : ∀ c ∈ (toString n).toList, c.isDigit = true := fun _ =>
      Text.isDigit_of_mem_toString
    have hspaced := bracketed?_spaced [] hname (bracketed?_eq_some hparts).2 hdigits hnone hnone
      hnone
    simp only [List.nil_append] at hspaced
    refine Or.inr ⟨by simp, (toString n).toList, hspaced, ?_⟩
    exact readExtent_eq_ok_iff.2 ⟨n, hn, Text.readCount?_toString hword, hfits, rfl⟩

theorem chars_brackets (extent : Extent) :
    ∀ c ∈ extent.brackets.toList, Text.isBlank c = false ∧ c ≠ ',' := by
  cases extent with
  | single => simp [Extent.brackets]
  | array n h =>
    intro c hc
    rw [toList_brackets_array, List.mem_cons, List.mem_append, List.mem_singleton] at hc
    rcases hc with rfl | hc | rfl
    · decide
    · have hdigit := Text.isDigit_of_mem_toString hc
      refine ⟨not_isBlank_of_isDigit hdigit, ?_⟩
      rintro rfl
      exact absurd hdigit (by decide)
    · decide

theorem precision_of_valueType (type : ValueType) : Precision.ofName? type.name = none := by
  have hall : ∀ t ∈ ValueType.all, Precision.ofName? t.name = none := by decide
  exact hall type (ValueType.mem_all type)

theorem comma_notMem_valueType (type : ValueType) : ',' ∉ type.name.toList := by
  have hall : ∀ t ∈ ValueType.all, ',' ∉ t.name.toList := by decide
  exact hall type (ValueType.mem_all type)

/-- The declaration of a uniform as a block writes it. -/
def declaration (u : Uniform) : String :=
  u.type ++ " " ++ u.name ++ u.extent.brackets

/-- The uniform of that declaration. -/
def redeclared (u : Uniform) : Uniform :=
  { u with line := u.declaration, precision := none }

/-- A value is read back from its declaration in a block, and nothing is reported about it. -/
theorem read_declaration {line : String} {u : Uniform} {type : ValueType}
    (hread : read? line = some u) (htype : ValueType.ofName? u.type = some type) :
    read u.declaration = ⟨false, .ok u.redeclared⟩ := by
  obtain ⟨precision, word, rest, name, extent, hsplit, hdeclarator, rfl⟩ :=
    read?_eq_some_iff.1 hread
  have hname : type.name = String.ofList word := ValueType.ofName?_eq_some_iff.1 htype
  have hwords := mem_of_mem_splitPrecision hsplit
  have hspace : ∀ c ∈ Text.joinWords rest, Text.isBlank c = true → c = ' ' := by
    intro c hc hblank
    rcases Text.mem_joinWords hc with rfl | ⟨w, hw, hcw⟩
    · rfl
    · rw [Text.not_isBlank_of_mem_words (hwords w (List.mem_cons_of_mem word hw)) c hcw] at hblank
      cases hblank
  obtain ⟨hnonempty, hchars⟩ := name_of_readDeclarator hspace hdeclarator
  have htail : ∀ c ∈ name ++ extent.brackets.toList, Text.isBlank c = false ∧ c ≠ ',' := by
    intro c hc
    rcases List.mem_append.1 hc with hc | hc
    · exact ⟨(hchars c hc).1, (hchars c hc).2.2⟩
    · exact chars_brackets extent c hc
  have hsplitAgain : Text.words (word ++ ' ' :: (name ++ extent.brackets.toList)) =
      [word, name ++ extent.brackets.toList] :=
    Text.words_pair (Text.ne_nil_of_mem_words (hwords word List.mem_cons_self))
      (List.append_ne_nil_of_left_ne_nil hnonempty _)
      (Text.not_isBlank_of_mem_words (hwords word List.mem_cons_self)) fun c hc => (htail c hc).1
  have hcomma : ',' ∉ word ++ ' ' :: (name ++ extent.brackets.toList) := by
    have hword := comma_notMem_valueType type
    rw [hname, String.toList_ofList] at hword
    simp only [List.mem_append, List.mem_cons, not_or]
    refine ⟨hword, by decide, ?_⟩
    rw [← not_or, ← List.mem_append]
    exact fun hc => (htail _ hc).2 rfl
  have hplain : Precision.ofName? (String.ofList word) = none := by
    rw [← hname]
    exact precision_of_valueType type
  have htext : (String.ofList word ++ " " ++ String.ofList name ++ extent.brackets).toList =
      word ++ ' ' :: (name ++ extent.brackets.toList) := by simp
  have hsingle : Text.joinWords [name ++ extent.brackets.toList] = name ++ extent.brackets.toList :=
    by simp [Text.joinWords]
  unfold read declaration
  rw [htext, hsplitAgain]
  simp only [splitPrecision, hplain, hsingle, readDeclarator_written hspace hdeclarator,
    List.contains_eq_mem, hcomma, decide_false]
  rfl

end Uniform

/-! ## Merging the declarations -/

namespace MergedUniforms

theorem distinctLines_eq_self {ls : List StageLine} (h : (ls.map StageLine.line).Nodup) :
    distinctLines ls = ls := by
  induction ls with
  | nil => rfl
  | cons l ls ih =>
    rw [List.map_cons, List.nodup_cons] at h
    rw [distinctLines, ih h.2]
    congr 1
    rw [List.filter_eq_self]
    intro other hother
    rw [bne_iff_ne]
    exact fun hline => h.1 (List.mem_map.2 ⟨other, hother, hline⟩)

theorem foldl_add_declarations {m : MergedUniforms} {us : List Uniform} {ls : List StageLine}
    (hlines : ls.map StageLine.line = us.map Uniform.declaration)
    (hread : ∀ u ∈ us, Uniform.read u.declaration = ⟨false, .ok u.redeclared⟩)
    (hnodup : (m.uniforms.map Uniform.name ++ us.map Uniform.name).Nodup) :
    ls.foldl add m = ⟨m.uniforms ++ us.map Uniform.redeclared, m.reports⟩ := by
  induction us generalizing m ls with
  | nil =>
    obtain rfl := List.map_eq_nil_iff.1 hlines
    simp
  | cons u us ih =>
    obtain ⟨l, ls, rfl, hline, hrest⟩ := List.map_eq_cons_iff.1 hlines
    have hfresh : u.redeclared.name ∉ m.uniforms.map Uniform.name := by
      intro hmem
      exact (List.nodup_append.1 hnodup).2.2 _ hmem _ List.mem_cons_self rfl
    have hadd : m.add l = ⟨m.uniforms ++ [u.redeclared], m.reports⟩ := by
      refine add_of_read ?_ hfresh
      rw [hline]
      exact hread u List.mem_cons_self
    have hnext : ((m.uniforms ++ [u.redeclared]).map Uniform.name ++ us.map Uniform.name).Nodup := by
      simpa [Uniform.redeclared] using hnodup
    rw [List.foldl_cons, hadd, ih hrest (fun v hv => hread v (List.mem_cons_of_mem u hv)) hnext]
    simp

theorem ofStages_declarations {us : List Uniform} {vertex fragment : List String}
    (hlines : vertex ++ fragment = us.map Uniform.declaration)
    (hread : ∀ u ∈ us, Uniform.read u.declaration = ⟨false, .ok u.redeclared⟩)
    (hnodup : (us.map Uniform.name).Nodup) :
    ofStages vertex fragment = ⟨us.map Uniform.redeclared, []⟩ := by
  have hstages : (stageLines vertex fragment).map StageLine.line = us.map Uniform.declaration := by
    simpa [stageLines, Function.comp_def] using hlines
  -- the same declaration would be read as the same name
  have hdistinct : (us.map Uniform.declaration).Nodup := by
    refine List.Nodup.map_on ?_ (List.Nodup.of_map _ hnodup)
    intro u hu v hv hsame
    have hu' := hread u hu
    rw [hsame, hread v hv] at hu'
    have hname := congrArg Uniform.name (Except.ok.inj (Uniform.Reading.mk.inj hu').2)
    exact (List.inj_on_of_nodup_map hnodup hv hu hname).symm
  rw [ofStages, distinctLines_eq_self (by rw [hstages]; exact hdistinct),
    foldl_add_declarations hstages hread (by simpa using hnodup)]
  rfl

end MergedUniforms

/-! ## The text of a block -/

/-- The declarations in the text of the block of the mesh set: the lines between its heading and the
closing brace, without their indentation and semicolon. -/
def memberTexts (text : String) : List String :=
  let body := ((Text.lines text.toList).dropWhile fun l => !"ub_mesh \x7b".toList.isSuffixOf l).drop 1
  (body.takeWhile fun l => l != "\x7d;".toList).map fun l => String.ofList (l.drop 4).dropLast

theorem memberTexts_block {members : List Member} (h : ∀ m ∈ members, NoBreak m.name) :
    memberTexts (Statement.block ⟨meshSet, 0⟩ members).text =
      members.map fun m => m.type.name ++ " " ++ m.name ++ m.extent.brackets := by
  let first := heading ⟨meshSet, 0⟩ (", std140) uniform " ++ Statement.blockName meshSet ++ " \x7b")
  have hlines : Text.lines (Statement.block ⟨meshSet, 0⟩ members).text.toList = first.toList ::
      (members.map (fun m => (memberLine m).toList) ++ "\x7d;".toList :: Text.lines []) := by
    rw [← List.append_nil (Statement.block ⟨meshSet, 0⟩ members).text.toList, lines_block h]
  have hheading : "ub_mesh \x7b".toList.isSuffixOf first.toList = true := by decide +kernel
  have hmember : ∀ l ∈ members.map (fun m => (memberLine m).toList), (l != "\x7d;".toList) = true := by
    intro l hl
    obtain ⟨m, -, rfl⟩ := List.mem_map.1 hl
    simp [memberLine]
  simp only [memberTexts]
  rw [hlines, List.dropWhile_cons_of_neg (by rw [hheading]; decide), List.drop_one, List.tail_cons,
    Text.takeWhile_append_run hmember (by simp), List.map_map]
  refine List.map_congr_left fun m _ => ?_
  have hline : (memberLine m).toList =
      "    ".toList ++ ((m.type.name ++ " " ++ m.name ++ m.extent.brackets).toList ++ [';']) := by
    simp [memberLine]
  have hindent : "    ".toList.length = 4 := by decide
  rw [Function.comp_apply, hline, List.drop_left' hindent, List.dropLast_concat,
    String.ofList_toList]

namespace MeshInterface

theorem memberTexts_statement {host : Host} {m : MergedUniforms} (hm : m.Sound)
    {mesh : MeshInterface} (h : ofUniforms host m.uniforms = .ok mesh) {layout : BlockLayout}
    (hblock : mesh.block = some layout) :
    memberTexts (layout.statement ⟨meshSet, 0⟩).text =
      (ownValues host m.uniforms).map Uniform.declaration := by
  have hnames : ∀ member ∈ layout.members.map PlacedMember.toMember, NoBreak member.name := by
    intro member hmember
    have hname : member.name ∈ (ownValues host m.uniforms).map Uniform.name := by
      rw [← names_members h hblock]
      exact List.mem_map_of_mem hmember
    obtain ⟨u, hu, hu'⟩ := List.mem_map.1 hname
    rw [← hu']
    exact Uniform.noBreak_name_of_read? (hm.read u (List.mem_filter.1 hu).1)
  rw [BlockLayout.statement, memberTexts_block hnames]
  refine map_eq_of_forall₂ ?_ (members_of_block h hblock).1
  intro u member hmember
  obtain ⟨type, htype, rfl⟩ := Uniform.toMember_eq_ok_iff.1 hmember
  rw [ValueType.ofName?_eq_some_iff.1 htype]
  rfl

theorem ofUniforms_redeclared {us : List Uniform} {members : List Member} {layout : BlockLayout}
    (hvalues : ∀ u ∈ us, u.isSampler = false)
    (hmembers : List.Forall₂ (fun u m => u.toMember = .ok m) us members)
    (hblock : blockOf members = .ok (some layout)) :
    ofUniforms {} (us.map Uniform.redeclared) =
      .ok ⟨some layout, ⟨buffersOf (some layout), []⟩⟩ := by
  have hown : ownValues {} (us.map Uniform.redeclared) = us.map Uniform.redeclared := by
    rw [ownValues, List.filter_eq_self]
    intro u hu
    obtain ⟨v, hv, rfl⟩ := List.mem_map.1 hu
    simp [Uniform.isProvided, Uniform.redeclared, hvalues v hv, Host.providesValue, SetTable.values]
  have hnone : ownTextures {} (us.map Uniform.redeclared) = [] := by
    rw [ownTextures, List.filter_eq_nil_iff]
    intro u hu
    obtain ⟨v, hv, rfl⟩ := List.mem_map.1 hu
    simp [Uniform.redeclared, hvalues v hv]
  rw [ofUniforms_eq_ok_iff, hown, hnone]
  refine ⟨by decide, members, ?_, hblock, rfl, List.Forall₂.nil⟩
  refine List.forall₂_map_left_iff.2 (hmembers.imp fun u m hm => ?_)
  obtain ⟨type, htype, rfl⟩ := Uniform.toMember_eq_ok_iff.1 hm
  exact Uniform.toMember_eq_ok_iff.2 ⟨type, htype, rfl⟩

/-- The members of the block of the mesh set, read as uniform lines of the two stages and bound with
a host that provides nothing, are reported nowhere and give the same block again. -/
theorem block_of_memberTexts {host : Host} {vertex fragment : List String} {mesh : MeshInterface}
    {layout : BlockLayout}
    (h : ofUniforms host (MergedUniforms.ofStages vertex fragment).uniforms = .ok mesh)
    (hblock : mesh.block = some layout) {vertexAgain fragmentAgain : List String}
    (hlines : vertexAgain ++ fragmentAgain = memberTexts (layout.statement ⟨2, 0⟩).text) :
    (MergedUniforms.ofStages vertexAgain fragmentAgain).reports = [] ∧
      ∃ again, ofUniforms {} (MergedUniforms.ofStages vertexAgain fragmentAgain).uniforms =
        .ok again ∧ again.block = some layout := by
  let us := ownValues host (MergedUniforms.ofStages vertex fragment).uniforms
  have hsound := MergedUniforms.sound_ofStages vertex fragment
  have hnodup : (us.map Uniform.name).Nodup :=
    hsound.nodup.sublist (List.filter_sublist.map Uniform.name)
  obtain ⟨hmembers, hplaced⟩ := members_of_block h hblock
  have hread : ∀ u ∈ us, Uniform.read u.declaration = ⟨false, .ok u.redeclared⟩ := by
    intro u hu
    obtain ⟨m, -, hm⟩ := exists_of_mem_forall₂ hmembers hu
    obtain ⟨type, htype, -⟩ := Uniform.toMember_eq_ok_iff.1 hm
    exact Uniform.read_declaration (hsound.read u (List.mem_filter.1 hu).1) htype
  have htexts := memberTexts_statement hsound h hblock
  have hmerged := MergedUniforms.ofStages_declarations (hlines.trans htexts) hread hnodup
  have hvalues : ∀ u ∈ us, u.isSampler = false := by
    intro u hu
    simpa using (Bool.and_eq_true_iff.1 (List.mem_filter.1 hu).2).1
  rw [hmerged]
  exact ⟨rfl, _, ofUniforms_redeclared hvalues hmembers hplaced, rfl⟩

def cameraHost : Host where
  blocks := [some ⟨[⟨⟨"view", .matrix .four, .single⟩, 0⟩], 64⟩]

/-- The block of an array that was declared with a precision, a sign in its size and text behind it,
and of a name that ends with a semicolon. -/
def jointBlock : BlockLayout where
  members := [⟨⟨"joint-set", .matrix .four, .array 3 (by decide)⟩, 0⟩,
    ⟨⟨"fog;", .vector .float .three, .single⟩, 192⟩]
  byteSize := 208

theorem block_of_memberTexts_jointBlock :
    ∃ mesh, ofUniforms cameraHost (MergedUniforms.ofStages
        ["highp mat4 joint-set [ +03 ] rest", "mat4 view"]
        ["vec3\tfog;", "sampler2D mask"]).uniforms = .ok mesh ∧
      mesh.block = some jointBlock ∧
      memberTexts (jointBlock.statement ⟨2, 0⟩).text = ["mat4 joint-set[3]", "vec3 fog;"] ∧
      (MergedUniforms.ofStages ["mat4 joint-set[3]"] ["vec3 fog;"]).reports = [] ∧
      ∃ again, ofUniforms {} (MergedUniforms.ofStages ["mat4 joint-set[3]"] ["vec3 fog;"]).uniforms =
        .ok again ∧ again.block = some jointBlock := by
  let mesh : MeshInterface :=
    ⟨some jointBlock, ⟨[⟨"default", .all⟩], [⟨"mask", .all, .d2, .float⟩]⟩⟩
  have hmesh : ofUniforms cameraHost (MergedUniforms.ofStages
      ["highp mat4 joint-set [ +03 ] rest", "mat4 view"]
      ["vec3\tfog;", "sampler2D mask"]).uniforms = .ok mesh := by decide +kernel
  have htexts : memberTexts (jointBlock.statement ⟨2, 0⟩).text =
      ["mat4 joint-set[3]"] ++ ["vec3 fog;"] := by decide +kernel
  exact ⟨mesh, hmesh, rfl, htexts, block_of_memberTexts hmesh rfl htexts.symm⟩

end MeshInterface

end GlslLayout
