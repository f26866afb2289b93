import GlslLayout.Proofs.Attribute
import GlslLayout.Proofs.MeshText
import GlslLayout.Proofs.Source.Inert
import GlslLayout.Proofs.Varying

/-!
A bound shader holds no declaration of the old style.

* `PlainText`: text that neither ends a statement nor opens a comment.
* `Statement.IsPlain`, `Statement.passes_text`: a statement made of such texts is read without
  finding a declaration in it, and a statement starts behind it.
* `Shader.IsPlain`: what a shader, its host and its policy must keep to.
* `Shader.strip_bound`: then nothing can be stripped from the bound shader.
-/

namespace GlslLayout

set_option autoImplicit false

open Source (Opening Passes isPlain isWordChar)

/-! ## Plain texts -/

/-- A text without `;`, braces, slashes and line breaks. -/
def PlainText (s : String) : Prop :=
  Over (fun c => isPlain c = true) s

instance (s : String) : Decidable (PlainText s) :=
  inferInstanceAs (Decidable (Over _ s))

theorem plainText_append_iff {s t : String} : PlainText (s ++ t) ↔ PlainText s ∧ PlainText t :=
  over_append_iff

theorem isWordChar_of_isDigit {c : Char} (h : c.isDigit = true) : isWordChar c = true := by
  simp [isWordChar, Char.isAlphanum, h]

theorem plainText_toString (n : Nat) : PlainText (toString n) :=
  fun _ hc => Source.isPlain_of_isWordChar (isWordChar_of_isDigit (Text.isDigit_of_mem_toString hc))

theorem plainText_brackets (e : Extent) : PlainText e.brackets := by
  cases e with
  | single => decide
  | array n h =>
    exact plainText_append_iff.2 ⟨plainText_append_iff.2 ⟨by decide, plainText_toString n⟩, by decide⟩

theorem plainText_blockName (set : Nat) : PlainText (Statement.blockName set) := by
  refine plainText_append_iff.2 ⟨by decide, ?_⟩
  unfold setName
  split
  · decide
  · split
    · decide
    · split
      · decide
      · exact plainText_append_iff.2 ⟨by decide, plainText_toString set⟩

/-! ## Words that open a statement -/

/-- A word that is no qualifier. -/
structure IsTypeWord (s : String) : Prop where
  ne_nil : s.toList ≠ []
  word : s.toList.all isWordChar = true
  noQualifier : Source.Qualifier.ofWord? s.toList = none

theorem IsTypeWord.plainText {s : String} (h : IsTypeWord s) : PlainText s :=
  over_of_wordChars (fun _ => Source.isPlain_of_isWordChar) h.word

theorem IsTypeWord.opening {s : String} (h : IsTypeWord s) : Opening (s ++ " ").toList := by
  rw [String.toList_append]
  exact .word (List.all_eq_true.1 h.word) h.noQualifier (by decide) (fun hnil => absurd hnil h.ne_nil)
    (List.all_eq_true.1 (by decide))

theorem isTypeWord_valueType (type : ValueType) : IsTypeWord type.name := by
  rcases type with c | ⟨c, w⟩ | w
  · cases c <;> exact ⟨by decide, by decide, by decide⟩
  · cases c <;> cases w <;> exact ⟨by decide, by decide, by decide⟩
  · cases w <;> exact ⟨by decide, by decide, by decide⟩

/-- No qualifier has the second letter of `vec`. -/
theorem ofWord?_vec (s : List Char) : Source.Qualifier.ofWord? ('v' :: 'e' :: s) = none := by
  refine Option.eq_none_iff_forall_ne_some.2 fun q hq => ?_
  have hsecond : q.word[1]? = some 'e' := by
    rw [Source.Qualifier.ofWord?_eq_some_iff.1 hq]
    rfl
  cases q <;> exact absurd hsecond (by decide)

theorem isTypeWord_seenType (count : Nat) : IsTypeWord (seenType count) := by
  unfold seenType
  split
  · exact ⟨by decide, by decide, by decide⟩
  · have htext : ("vec" ++ toString count).toList = 'v' :: 'e' :: 'c' :: (toString count).toList := by
      simp
    have hdigits : (toString count).toList.all isWordChar = true := by
      rw [List.all_eq_true]
      exact fun c hc => isWordChar_of_isDigit (Text.isDigit_of_mem_toString hc)
    refine ⟨by rw [htext]; exact List.cons_ne_nil _ _, ?_, by rw [htext]; exact ofWord?_vec _⟩
    rw [htext, List.all_cons, List.all_cons, List.all_cons, hdigits]
    decide

theorem plainText_fetchedType (signed : Bool) (count : Nat) :
    PlainText (fetchedType signed count) := by
  unfold fetchedType
  split
  · cases signed <;> decide
  · refine plainText_append_iff.2 ⟨?_, plainText_toString count⟩
    cases signed <;> decide

theorem opening_layout : Opening "layout(set = ".toList ∧ Opening "layout(location = ".toList ∧
    Opening "layout(location=".toList := by
  have hlayout : ∀ rest : List Char, ('(' :: rest).all isPlain = true →
      Opening ("layout".toList ++ '(' :: rest) := fun rest hrest =>
    .word (List.all_eq_true.1 (by decide)) (by decide) (by decide) (by decide)
      (List.all_eq_true.1 hrest)
  exact ⟨hlayout "set = ".toList (by decide), hlayout "location = ".toList (by decide),
    hlayout "location=".toList (by decide)⟩

theorem opening_define : Opening "#define ".toList := by
  have hempty : Opening ([] ++ '#' :: "define ".toList) :=
    .word (by simp) (by decide) (by decide) (by decide) (List.all_eq_true.1 (by decide))
  exact hempty

/-! ## Statements -/

namespace Statement

/-- A statement whose texts are plain. A conversion opens with its type, so that has to be a word.
-/
def IsPlain : Statement → Prop
  | .vertexInput _ type name => PlainText type ∧ PlainText name
  | .conversion type name input => IsTypeWord type ∧ PlainText name ∧ PlainText input
  | .varying _ _ type name => PlainText type ∧ PlainText name
  | .fragmentOutput _ body => PlainText body
  | .block _ members => ∀ m ∈ members, PlainText m.name
  | .resource _ type name => PlainText type ∧ PlainText name
  | .combination name sampler => PlainText name ∧ PlainText sampler

theorem Spelled.isPlain {s : Statement} (h : s.Spelled fun c => Source.isPlain c = true) :
    s.IsPlain := by
  cases s with
  | block address members => exact h
  | resource address type name => exact h
  | combination name sampler => exact h
  | _ => exact h.elim

theorem passes_line {opening body : String} (hopening : Opening opening.toList)
    (hbody : PlainText body) : Passes true (opening ++ body ++ ";\n").toList := by
  have htext : (opening ++ body ++ ";\n").toList = opening.toList ++ body.toList ++ [';'] ++ ['\n'] := by
    simp
  rw [htext]
  exact (hopening.passes hbody (by decide)).boundary (by decide)

theorem passes_memberLines {members : List Member} (h : ∀ m ∈ members, PlainText m.name) :
    Passes true (Member.lines members).toList := by
  induction members with
  | nil => exact fun t => rfl
  | cons m members ih =>
    have hline : m.line =
        "    " ++ (m.type.name ++ " ") ++ (m.name ++ m.extent.brackets) ++ ";\n" := by
      simp [Member.line, String.append_assoc]
    have hindent : Opening ("    " ++ (m.type.name ++ " ")).toList := by
      rw [String.toList_append]
      have hword := (isTypeWord_valueType m.type).opening
      exact .gap (by decide) (.gap (by decide) (.gap (by decide) (.gap (by decide) hword)))
    rw [Member.lines, String.toList_append, hline]
    refine (passes_line hindent ?_).append (ih fun m' hm' => h m' (List.mem_cons_of_mem m hm'))
    exact plainText_append_iff.2 ⟨h m (by simp), plainText_brackets _⟩

theorem passes_text {s : Statement} (h : s.IsPlain) : Passes true s.text.toList := by
  obtain ⟨hset, hlocation, hinput⟩ := opening_layout
  cases s with
  | vertexInput location type name =>
    have htext : (Statement.vertexInput location type name).text = "layout(location=" ++
        (toString location ++ ") in " ++ type ++ " " ++ name) ++ ";\n" := by
      unfold Statement.text
      simp only [String.append_assoc]
    rw [htext]
    apply passes_line hinput
    simp only [plainText_append_iff]
    exact ⟨⟨⟨⟨plainText_toString _, by decide⟩, h.1⟩, by decide⟩, h.2⟩
  | conversion type name input =>
    have htext : (Statement.conversion type name input).text = (type ++ " ") ++
        (name ++ " = " ++ type ++ "(" ++ input ++ ")") ++ ";\n" := by
      unfold Statement.text
      simp [String.append_assoc]
    rw [htext]
    apply passes_line h.1.opening
    simp only [plainText_append_iff]
    exact ⟨⟨⟨⟨⟨h.2.1, by decide⟩, h.1.plainText⟩, by decide⟩, h.2.2⟩, by decide⟩
  | varying direction location type name =>
    have htext : (Statement.varying direction location type name).text = "layout(location = " ++
        (toString location ++ ") " ++ direction.word ++ " " ++ type ++ " " ++ name) ++ ";\n" := by
      unfold Statement.text
      simp only [String.append_assoc]
    have hdirection : PlainText direction.word := by cases direction <;> decide
    rw [htext]
    apply passes_line hlocation
    simp only [plainText_append_iff]
    exact ⟨⟨⟨⟨⟨⟨plainText_toString _, by decide⟩, hdirection⟩, by decide⟩, h.1⟩, by decide⟩, h.2⟩
  | fragmentOutput location body =>
    have htext : (Statement.fragmentOutput location body).text = "layout(location = " ++
        (toString location ++ ") out " ++ body) ++ ";\n" := by
      unfold Statement.text
      simp only [String.append_assoc]
    rw [htext]
    apply passes_line hlocation
    simp only [plainText_append_iff]
    exact ⟨⟨plainText_toString _, by decide⟩, h⟩
  | resource address type name =>
    have htext : (Statement.resource address type name).text = "layout(set = " ++
        (toString address.set ++ ", binding = " ++ toString address.binding ++ ") uniform " ++ type ++
          " " ++ name) ++ ";\n" := by
      unfold Statement.text
      simp only [String.append_assoc]
    rw [htext]
    apply passes_line hset
    simp only [plainText_append_iff]
    exact ⟨⟨⟨⟨⟨⟨plainText_toString _, by decide⟩, plainText_toString _⟩, by decide⟩, h.1⟩, by decide⟩,
      h.2⟩
  | block address members =>
    let head := toString address.set ++ ", binding = " ++ toString address.binding ++
      ", std140) uniform " ++ blockName address.set ++ " "
    have hhead : PlainText head := by
      simp only [head, plainText_append_iff]
      exact ⟨⟨⟨⟨⟨plainText_toString _, by decide⟩, plainText_toString _⟩, by decide⟩,
        plainText_blockName _⟩, by decide⟩
    have htext : (Statement.block address members).text.toList = "layout(set = ".toList ++
        head.toList ++ ['\x7b'] ++ ['\n'] ++ (Member.lines members).toList ++ ['\x7d'] ++ [';'] ++
        ['\n'] := by
      unfold Statement.text
      simp [head]
    -- a statement starts behind the opening brace, and behind each of the last three characters
    rw [htext]
    have hopen : Passes true ("layout(set = ".toList ++ head.toList ++ ['\x7b'] ++ ['\n']) :=
      (hset.passes hhead (by decide)).boundary (by decide)
    exact (((hopen.append (passes_memberLines h)).boundary (by decide)).boundary (by decide)).boundary
      (by decide)
  | combination name sampler =>
    let rest := name ++ " " ++ sampler ++ "(" ++ textureName name ++ ", " ++ samplerName name ++ ")"
    have hrest : PlainText rest := by
      simp only [rest, textureName, samplerName, plainText_append_iff]
      exact ⟨⟨⟨⟨⟨⟨⟨h.1, by decide⟩, h.2⟩, by decide⟩, h.1, by decide⟩, by decide⟩, h.1, by decide⟩,
        by decide⟩
    have htext : (Statement.combination name sampler).text.toList =
        "#define ".toList ++ rest.toList ++ ['\n'] := by
      unfold Statement.text
      simp [rest]
    rw [htext]
    exact opening_define.passes hrest (by decide)

theorem passes_code {ss : List Statement} (h : ∀ s ∈ ss, s.IsPlain) :
    Passes true (code ss).toList := by
  induction ss with
  | nil => exact fun t => rfl
  | cons s ss ih =>
    rw [code, String.toList_append]
    exact (passes_text (h s (by simp))).append (ih fun s' hs' => h s' (List.mem_cons_of_mem s hs'))

end Statement

/-! ## The interface of a shader -/

theorem isPlain_attributeStatements {policy : Policy} {host : Host} {semantics : SemanticMap}
    {lines : List String} (hstart : PlainText policy.hiddenStart)
    (hlines : ∀ line ∈ lines, ∀ d ∈ Declarator.read? line, PlainText d.type ∧ PlainText d.name) :
    ∀ s ∈ (AttributeInterface.ofLines policy host semantics lines).statements, s.IsPlain := by
  intro s hs
  rw [AttributeInterface.statements_ofLines] at hs
  obtain ⟨a, ha, hs⟩ := List.mem_flatMap.1 hs
  obtain ⟨⟨line, hline, hd⟩, -⟩ := read?_of_mem_mappedAttributes ha
  obtain ⟨htype, hname⟩ := hlines line hline a.declared hd
  unfold MappedAttribute.statements MappedAttribute.placed at hs
  cases hconverted : a.converted? host with
  | none =>
    obtain rfl : s = .vertexInput a.semantic.location a.declared.type a.declared.name := by
      simpa [hconverted, PlacedAttribute.location] using hs
    exact ⟨htype, hname⟩
  | some element =>
    have hhidden : PlainText (policy.hiddenStart ++ a.declared.name) :=
      plainText_append_iff.2 ⟨hstart, hname⟩
    simp only [hconverted, List.mem_cons, List.not_mem_nil, or_false] at hs
    rcases hs with rfl | rfl
    · exact ⟨plainText_fetchedType _ _, hhidden⟩
    · exact ⟨isTypeWord_seenType _, hname, hhidden⟩

theorem isPlain_varyingStatements {direction : Direction} {placed : List PlacedVarying}
    {lines : List String}
    (hplaced : ∀ b ∈ placed, ∃ line ∈ lines, Declarator.read? line = some ⟨b.type, b.name⟩)
    (hlines : ∀ line ∈ lines, ∀ d ∈ Declarator.read? line, PlainText d.type ∧ PlainText d.name) :
    ∀ s ∈ placed.map (PlacedVarying.statement direction), s.IsPlain := by
  intro s hs
  obtain ⟨b, hb, rfl⟩ := List.mem_map.1 hs
  obtain ⟨line, hline, hread⟩ := hplaced b hb
  exact hlines line hline _ hread

theorem isPlain_outputStatements {lines : List String} (h : ∀ body ∈ lines, PlainText body) :
    ∀ s ∈ outputStatements lines, s.IsPlain := by
  intro s hs
  obtain ⟨entry, hentry, rfl⟩ := List.mem_map.1 hs
  exact h entry.1 (List.fst_mem_of_mem_zipIdx hentry)

theorem passes_blocks {first second third : List Statement} (hfirst : ∀ s ∈ first, s.IsPlain)
    (hsecond : ∀ s ∈ second, s.IsPlain) (hthird : ∀ s ∈ third, s.IsPlain) :
    Passes true (Statement.code first ++ "\n" ++ Statement.code second ++ "\n" ++
      Statement.code third).toList := by
  have htext : (Statement.code first ++ "\n" ++ Statement.code second ++ "\n" ++
      Statement.code third).toList = (Statement.code first).toList ++ ['\n'] ++
      (Statement.code second).toList ++ ['\n'] ++ (Statement.code third).toList := by
    simp
  rw [htext]
  have hlines : Passes true ((Statement.code first).toList ++ ['\n']) :=
    (Statement.passes_code hfirst).boundary (by decide)
  exact ((hlines.append (Statement.passes_code hsecond)).boundary (by decide)).append
    (Statement.passes_code hthird)

/-! ## Bound shaders -/

namespace Shader

/-- Nothing that a shader, its host and its policy bring into the generated declarations ends a
statement or opens a comment. A body never holds a semicolon, so that is not asked of outputs. -/
structure IsPlain (policy : Policy) (host : Host) (shader : Shader) : Prop where
  attributes : ∀ line ∈ (Source.strip shader.vertex).attributes,
    ∀ d ∈ Declarator.read? line, PlainText d.type ∧ PlainText d.name
  varyings : ∀ line ∈ (Source.strip shader.vertex).varyings ++ (Source.strip shader.fragment).varyings,
    ∀ d ∈ Declarator.read? line, PlainText d.type ∧ PlainText d.name
  uniforms : ∀ line ∈ (Source.strip shader.vertex).uniforms ++ (Source.strip shader.fragment).uniforms,
    ∀ u ∈ Uniform.read? line, PlainText u.name
  outputs : ∀ body ∈ (Source.strip shader.fragment).outputs,
    Over (fun c => c ∉ ['\x7b', '\x7d', '/', '\n']) body
  host : host.NamesOver fun c => isPlain c = true
  hiddenStart : PlainText policy.hiddenStart

theorem semicolon_not_mem_outputs {source body : String} (h : body ∈ (Source.strip source).outputs) :
    ';' ∉ body.toList := by
  have hdeclared : body ∈ Source.declared (Source.segment source.toList).cuts .output :=
    Source.declarations_eq_declared _ _ ▸ h
  obtain ⟨piece, hpiece, rfl⟩ := List.mem_map.1 hdeclared
  have wf := (Source.segment_wellFormed source.toList piece (List.mem_filter.1 hpiece).1).1
  rw [String.toList_ofList]
  exact fun hsemi => wf.body_semicolon (Text.mem_of_mem_trim hsemi)

theorem IsPlain.outputs_plainText {policy : Policy} {host : Host} {shader : Shader}
    (h : shader.IsPlain policy host) :
    ∀ body ∈ (Source.strip shader.fragment).outputs, PlainText body := by
  intro body hbody c hc
  have hnot := h.outputs body hbody c hc
  have hsemi : c ≠ ';' := fun heq => semicolon_not_mem_outputs hbody (heq ▸ hc)
  simp_all [Source.isPlain, Source.isBoundary]

theorem IsPlain.uniformStatements {policy : Policy} {host : Host} {shader : Shader}
    (h : shader.IsPlain policy host) {mesh : MeshInterface}
    (hmesh : MeshInterface.ofUniforms host (shader.interface policy host).uniforms.uniforms =
      .ok mesh) : ∀ s ∈ mesh.statements host, s.IsPlain := by
  have hsound : (shader.interface policy host).uniforms.Sound := MergedUniforms.sound_ofStages _ _
  have hnames : ∀ u ∈ (shader.interface policy host).uniforms.uniforms, PlainText u.name :=
    fun u hu => h.uniforms u.line (MergedUniforms.line_mem_of_mem_ofStages hu) u (hsound.read u hu)
  have hspelled := MeshInterface.spelled_statements (fun _ => Source.isPlain_of_isWordChar) h.host
    hnames hmesh
  exact fun s hs => (hspelled s hs).isPlain

/-- No declaration of the old style is left in a bound shader: stripping it finds nothing and
changes nothing. -/
theorem strip_bound {policy : Policy} {host : Host} {shader : Shader} {bound : BoundShader}
    (hrun : (shader.bind policy host).outcome = .ok bound)
    (hvertex : ¬ "@@@".toList <:+: shader.vertex.toList)
    (hfragment : ¬ "@@@".toList <:+: shader.fragment.toList) (hplain : shader.IsPlain policy host) :
    Source.strip bound.vertex = ⟨bound.vertex, [], [], [], []⟩ ∧
      Source.strip bound.fragment = ⟨bound.fragment, [], [], [], []⟩ := by
  obtain ⟨hmesh, hvertexText, hfragmentText, -⟩ := outcome_eq_ok_iff.1 hrun
  have huniforms := hplain.uniformStatements hmesh
  have hincoming : ∀ line ∈ (Source.strip shader.fragment).varyings,
      ∀ d ∈ Declarator.read? line, PlainText d.type ∧ PlainText d.name :=
    fun line hline => hplain.varyings line (List.mem_append_right _ hline)
  have houtgoing : ∀ line ∈ (Source.strip shader.vertex).varyings,
      ∀ d ∈ Declarator.read? line, PlainText d.type ∧ PlainText d.name :=
    fun line hline => hplain.varyings line (List.mem_append_left _ hline)
  constructor
  · refine Source.strip_of_fill? hvertex ?_ (fillStage_eq_ok_iff.1 hvertexText)
    exact passes_blocks (isPlain_attributeStatements hplain.hiddenStart hplain.attributes)
      (isPlain_varyingStatements (fun _ => VertexVaryings.read?_of_mem_placed) houtgoing) huniforms
  · refine Source.strip_of_fill? hfragment ?_ (fillStage_eq_ok_iff.1 hfragmentText)
    exact passes_blocks
      (isPlain_varyingStatements (fun _ => FragmentVaryings.read?_of_mem_placed) hincoming)
      (isPlain_outputStatements hplain.outputs_plainText) huniforms

/-- A host with a block, an array texture, and joints that are stored as bytes. -/
def skinHost : Host where
  blocks := [some ⟨[⟨⟨"view", .matrix .four, .single⟩, 0⟩], 64⟩]
  groups := [none, some ⟨[], [⟨"albedo", .all, .d2Array, .float⟩]⟩]
  elements := fun s =>
    if s = .blendIndices then some ⟨.unsigned .bits8, false, false⟩ else none

/-- A shader with every kind of declaration, a comment in front of the first one, an empty
declaration, and one that never ends. -/
def skinShader : Shader where
  label := none
  vertex :=
    "/* out; */ attribute vec4 joints;varying vec2 uv;\nuniform float bones[8];\nvoid main() \x7b\x7d\n"
  fragment := "varying vec2 uv;out vec4 color;;\nuniform sampler2D mask;uniform ;\nvarying vec3"
  semantics := .ofList [("joints", Semantic.blendIndices)]

theorem strip_bound_skinShader :
    ¬ "@@@".toList <:+: skinShader.vertex.toList ∧ ¬ "@@@".toList <:+: skinShader.fragment.toList ∧
    skinShader.IsPlain {} skinHost ∧
    ∃ bound, (skinShader.bind {} skinHost).outcome = .ok bound ∧
      Source.strip bound.vertex = ⟨bound.vertex, [], [], [], []⟩ ∧
      Source.strip bound.fragment = ⟨bound.fragment, [], [], [], []⟩ := by
  have hvertex : ¬ "@@@".toList <:+: skinShader.vertex.toList := by decide +kernel
  have hfragment : ¬ "@@@".toList <:+: skinShader.fragment.toList := by decide +kernel
  have hstripVertex : Source.strip skinShader.vertex =
      ⟨"/* out; */@@@\n\n\nvoid main() \x7b\x7d\n", ["vec4 joints"], ["vec2 uv"], [],
        ["float bones[8]"]⟩ := by decide +kernel
  have hstripFragment : Source.strip skinShader.fragment =
      ⟨"@@@\n\nuniform ;\nvarying vec3", [], ["vec2 uv"], ["vec4 color"], ["sampler2D mask"]⟩ := by
    decide +kernel
  have hplain : skinShader.IsPlain {} skinHost := by
    constructor
    · rw [hstripVertex]
      decide +kernel
    · rw [hstripVertex, hstripFragment]
      decide +kernel
    · rw [hstripVertex, hstripFragment]
      decide +kernel
    · rw [hstripFragment]
      decide +kernel
    · exact ⟨by decide, by decide⟩
    · decide
  have hsome : (skinShader.bind {} skinHost).outcome.toOption.isSome = true := by
    unfold bind
    rw [hstripVertex, hstripFragment]
    decide +kernel
  cases hrun : (skinShader.bind {} skinHost).outcome with
  | error failure =>
    rw [hrun] at hsome
    cases hsome
  | ok bound =>
    exact ⟨hvertex, hfragment, hplain, bound, rfl, strip_bound hrun hvertex hfragment hplain⟩

end Shader

end GlslLayout
