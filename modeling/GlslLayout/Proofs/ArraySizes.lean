import GlslLayout.Proofs.Provision
import GlslLayout.Proofs.Redeclaration
import GlslLayout.Proofs.TextureText

/-!
What becomes of the sizes of uniform arrays.

* `bracketCount?`: the number in the brackets of a declaration, as its text has it.
* `Uniform.size?_of_read?`: the extent of a uniform is that number.
* `MeshInterface.DeclaresMember`, `MeshInterface.DeclaresTexture`: a uniform is declared for a
  number of elements.
* `Shader.sizes_declared`: values are declared with their sizes, and every texture without one.
-/

namespace GlslLayout

set_option autoImplicit false

/-! ## Sizes in text -/

namespace Text

/-- The number in the first brackets of a text, if there are any. White space does not matter. -/
def bracketCount? (s : List Char) : Option Nat :=
  match (unspaced s).dropWhile (· != '[') with
  | [] => none
  | _ :: inner => readCount? (inner.takeWhile (· != ']'))

theorem bracketCount?_unspaced (s : List Char) : bracketCount? (unspaced s) = bracketCount? s := by
  have hunspaced : unspaced (unspaced s) = unspaced s := by simp [unspaced]
  rw [bracketCount?, bracketCount?, hunspaced]

theorem bracketCount?_append {l : List Char} (h : '[' ∉ l) (s : List Char) :
    bracketCount? (l ++ s) = bracketCount? s := by
  have hrun : ∀ c ∈ unspaced l, (c != '[') = true := by
    intro c hc
    rw [bne_iff_ne]
    rintro rfl
    exact h (List.mem_filter.1 hc).1
  have hsplit : unspaced (l ++ s) = unspaced l ++ unspaced s := List.filter_append ..
  rw [bracketCount?, hsplit, List.dropWhile_append_of_pos hrun]
  rfl

theorem bracketCount?_of_notMem {s : List Char} (h : '[' ∉ s) : bracketCount? s = none := by
  have hnil := bracketCount?_append h []
  rwa [List.append_nil] at hnil

theorem bracketCount?_of_mem {s : List Char} (h : '[' ∈ s) :
    bracketCount? s =
      readCount? (unspaced (((s.dropWhile (· != '[')).drop 1).takeWhile (· != ']'))) := by
  obtain ⟨c, inner, hinner⟩ := List.exists_cons_of_ne_nil
    (List.ne_nil_of_mem (mem_dropWhile_of_stop (p := (· != '[')) h rfl))
  have hc : isBlank c = false := by
    have hstop : (c != '[') = false :=
      head?_dropWhile_eq_false (p := (· != '[')) (l := s) (by rw [hinner]; rfl)
    rw [bne_eq_false_iff_eq.1 hstop]
    decide
  have hunspaced : unspaced (c :: inner) = c :: unspaced inner := by simp [unspaced, hc]
  rw [bracketCount?, ← (unspaced_takeWhile_dropWhile (by decide) s).2, hinner, hunspaced,
    List.drop_one, List.tail_cons, (unspaced_takeWhile_dropWhile (by decide) inner).1]

theorem not_isBlank_of_readCount? {s : List Char} {n : Nat} (h : readCount? s = some n) :
    ∀ c ∈ s, isBlank c = false := by
  obtain ⟨hnumeral, -, -⟩ := readCount?_eq_some_iff.1 h
  have hdigits := List.all_eq_true.1 (Bool.and_eq_true_iff.1 hnumeral).2
  intro c hc
  unfold dropPlus at hdigits
  split at hdigits
  · rcases List.mem_cons.1 hc with rfl | hc
    · decide
    · exact Uniform.not_isBlank_of_isDigit (hdigits c hc)
  · exact Uniform.not_isBlank_of_isDigit (hdigits c hc)

end Text

/-- The number of elements of an array. -/
def Extent.size? : Extent → Option Nat
  | .single => none
  | .array n _ => some n

/-- A declaration of a name, with brackets if it is for an array. -/
def sizedText (type name : String) : Option Nat → String
  | none => type ++ " " ++ name
  | some n => type ++ " " ++ name ++ "[" ++ toString n ++ "]"

theorem sizedText_inj {type name : String} {size : Option Nat}
    (h : sizedText type name size = sizedText type name none) : size = none := by
  cases size with
  | none => rfl
  | some n =>
    have hlength := congrArg String.length h
    have hbracket : "[".length = 1 := by decide
    simp only [sizedText, String.length_append] at hlength
    omega

/-! ## Sizes that are read -/

namespace Uniform

theorem size_of_bracketed? {text name size : List Char} (h : bracketed? text = some (name, size)) :
    size = Text.trim (((text.dropWhile (· != '[')).drop 1).takeWhile (· != ']')) := by
  simp only [bracketed?] at h
  split at h
  · cases h
  · exact (Prod.mk.inj (Option.some.inj h)).2.symm

theorem size?_of_readDeclarator {type : String} {text name : List Char} {extent : Extent}
    (h : readDeclarator type text = .ok (name, extent)) : extent.size? = Text.bracketCount? text := by
  rcases readDeclarator_eq_ok_iff.1 h with ⟨hbracket, -, -, rfl⟩ | ⟨hbracket, size, hparts, hextent⟩
  · rw [Text.bracketCount?_of_notMem hbracket]
    rfl
  · obtain ⟨n, hn, hcount, -, rfl⟩ := readExtent_eq_ok_iff.1 hextent
    have hsize : Text.unspaced (((text.dropWhile (· != '[')).drop 1).takeWhile (· != ']')) = size := by
      rw [← Text.unspaced_trim, ← size_of_bracketed? hparts,
        Text.unspaced_eq_self (Text.not_isBlank_of_readCount? hcount)]
    rw [Text.bracketCount?_of_mem hbracket, hsize, hcount]
    rfl

theorem splitPrecision_eq {ws rest : List (List Char)} {precision : Option Precision}
    (h : splitPrecision ws = (precision, rest)) :
    ∃ front, ws = front ++ rest ∧ '[' ∉ front.flatten := by
  cases ws with
  | nil =>
    obtain ⟨-, rfl⟩ := Prod.mk.inj h
    exact ⟨[], rfl, by simp⟩
  | cons w ws =>
    simp only [splitPrecision] at h
    split at h
    · next p hp =>
      obtain ⟨-, rfl⟩ := Prod.mk.inj h
      have hname : w = p.name.toList := by
        rw [Precision.ofName?_eq_some_iff.1 hp, String.toList_ofList]
      have hplain : '[' ∉ p.name.toList := by cases p <;> decide
      exact ⟨[w], rfl, by simpa [hname] using hplain⟩
    · obtain ⟨-, rfl⟩ := Prod.mk.inj h
      exact ⟨[], rfl, by simp⟩

/-- The extent of a uniform is the number in the brackets of its line. -/
theorem size?_of_read? {line : String} {u : Uniform} (h : read? line = some u)
    (htype : '[' ∉ u.type.toList) : u.extent.size? = Text.bracketCount? line.toList := by
  obtain ⟨precision, word, rest, name, extent, hsplit, hread, rfl⟩ := read?_eq_some_iff.1 h
  obtain ⟨front, hwords, hfront⟩ := splitPrecision_eq hsplit
  rw [String.toList_ofList] at htype
  calc extent.size?
      = Text.bracketCount? (Text.joinWords rest) := size?_of_readDeclarator hread
    _ = Text.bracketCount? rest.flatten := by
      rw [← Text.bracketCount?_unspaced, Text.unspaced_joinWords, Text.bracketCount?_unspaced]
    _ = Text.bracketCount? (Text.words line.toList).flatten := by
      rw [hwords, List.flatten_append, List.flatten_cons, Text.bracketCount?_append hfront,
        Text.bracketCount?_append htype]
    _ = Text.bracketCount? line.toList := by
      rw [Text.flatten_words, Text.bracketCount?_unspaced]

theorem sizedText_eq_declaration {u : Uniform} {size : Option Nat} (h : u.extent.size? = size) :
    sizedText u.type u.name size = u.declaration := by
  rw [← h, declaration]
  cases u.extent with
  | single => simp [Extent.size?, sizedText, Extent.brackets]
  | array n hn => simp [Extent.size?, sizedText, Extent.brackets, String.append_assoc]

end Uniform

/-! ## Sizes that are declared -/

namespace MeshInterface

variable {host : Host} {m : MergedUniforms} {mesh : MeshInterface}

/-- The text of the block. -/
def blockCode (mesh : MeshInterface) : String :=
  Statement.code (mesh.block.toList.map (BlockLayout.statement · ⟨meshSet, 0⟩))

/-- The text of the textures. -/
def textureCode (mesh : MeshInterface) : String :=
  Statement.code (mesh.group.textureStatements meshSet)

/-- A value is a member of the block, and both the member and its declaration are for the given
number of elements, or for a single value. -/
def DeclaresMember (mesh : MeshInterface) (u : Uniform) (size : Option Nat) : Prop :=
  ∃ (i : Nat) (member : Member), mesh.members[i]? = some member ∧ member.name = u.name ∧
    member.extent.size? = size ∧
    (memberTexts mesh.blockCode)[i]? = some (sizedText u.type u.name size)

/-- A texture stands in the bind group, and its view is declared for the given number of elements,
or for a single one. -/
def DeclaresTexture (mesh : MeshInterface) (u : Uniform) (size : Option Nat) : Prop :=
  ∃ (i : Nat) (t : TextureSlot), mesh.group.textures[i]? = some t ∧ t.name = u.name ∧
    (linesStarting "layout(set = " mesh.textureCode)[2 * i]? =
      some ("layout(set = 2, binding = " ++ toString (mesh.group.buffers.length + 2 * i) ++
        ") uniform " ++ sizedText t.textureType t.viewName size ++ ";")

theorem memberTexts_blockCode (hm : m.Sound) (h : ofUniforms host m.uniforms = .ok mesh) :
    memberTexts mesh.blockCode = (ownValues host m.uniforms).map Uniform.declaration := by
  cases hblock : mesh.block with
  | none =>
    rw [(block_eq_none_iff h).1 hblock, blockCode, hblock]
    decide
  | some layout =>
    rw [← memberTexts_statement hm h hblock, blockCode, hblock]
    simp [Statement.code]

theorem bracket_notMem_valueType (type : ValueType) : '[' ∉ type.name.toList := by
  have hall : ∀ t ∈ ValueType.all, '[' ∉ t.name.toList := by decide
  exact hall type (ValueType.mem_all type)

theorem declaresMember (hm : m.Sound) (h : ofUniforms host m.uniforms = .ok mesh) {u : Uniform}
    (hu : u ∈ ownValues host m.uniforms) :
    mesh.DeclaresMember u (Text.bracketCount? u.line.toList) := by
  obtain ⟨i, hi⟩ := List.mem_iff_getElem?.1 hu
  have hmembers : mesh.members.map (fun m => (m.name, m.extent)) =
      (ownValues host m.uniforms).map fun u => (u.name, u.extent) := by
    refine map_eq_of_forall₂ (fun u member hmember => ?_) (forall₂_members h)
    obtain ⟨_, -, rfl⟩ := Uniform.toMember_eq_ok_iff.1 hmember
    rfl
  have hentry := congrArg (·[i]?) hmembers
  simp only [List.getElem?_map, hi, Option.map_some, Option.map_eq_some_iff] at hentry
  obtain ⟨member, hmember, heq⟩ := hentry
  obtain ⟨hname, hextent⟩ := Prod.mk.inj heq
  have htype : '[' ∉ u.type.toList := by
    obtain ⟨_, -, hmade⟩ := exists_of_mem_forall₂ (forall₂_members h) hu
    obtain ⟨type, htype, -⟩ := Uniform.toMember_eq_ok_iff.1 hmade
    rw [← ValueType.ofName?_eq_some_iff.1 htype]
    exact bracket_notMem_valueType type
  have hsize := Uniform.size?_of_read? (hm.read u (List.mem_filter.1 hu).1) htype
  refine ⟨i, member, hmember, hname, by rw [hextent, hsize], ?_⟩
  rw [memberTexts_blockCode hm h, Uniform.sizedText_eq_declaration hsize, List.getElem?_map, hi]
  rfl

theorem noBreak_textures (hm : m.Sound) (h : ofUniforms host m.uniforms = .ok mesh) :
    ∀ t ∈ mesh.group.textures, NoBreak t.name := by
  intro t ht
  have hname : t.name ∈ (ownTextures host m.uniforms).map Uniform.name := by
    rw [← names_textures h]
    exact List.mem_map_of_mem ht
  obtain ⟨u, hu, hu'⟩ := List.mem_map.1 hname
  rw [← hu']
  exact Uniform.noBreak_name_of_read? (hm.read u (List.mem_filter.1 hu).1)

theorem getElem?_textureCode (hm : m.Sound) (h : ofUniforms host m.uniforms = .ok mesh) {i : Nat}
    {t : TextureSlot} (ht : mesh.group.textures[i]? = some t) :
    (linesStarting "layout(set = " mesh.textureCode)[2 * i]? =
      some ("layout(set = 2, binding = " ++ toString (mesh.group.buffers.length + 2 * i) ++
        ") uniform " ++ sizedText t.textureType t.viewName none ++ ";") := by
  have hset : toString meshSet = "2" := by decide
  rw [textureCode, BindGroup.views_code (noBreak_textures hm h) meshSet ht, hset]
  simp [sizedText, String.append_assoc]

theorem declaresTexture_iff (hm : m.Sound) (h : ofUniforms host m.uniforms = .ok mesh) {u : Uniform}
    (hu : u ∈ ownTextures host m.uniforms) (size : Option Nat) :
    mesh.DeclaresTexture u size ↔ size = none := by
  constructor
  · rintro ⟨i, t, ht, -, hline⟩
    rw [getElem?_textureCode hm h ht, Option.some.injEq] at hline
    exact sizedText_inj ((String.append_right_inj _).1 ((String.append_left_inj _).1 hline)).symm
  · rintro rfl
    have hname : u.name ∈ mesh.group.textures.map TextureSlot.name := by
      rw [names_textures h]
      exact List.mem_map_of_mem hu
    obtain ⟨t, ht, hname⟩ := List.mem_map.1 hname
    obtain ⟨i, hi⟩ := List.mem_iff_getElem?.1 ht
    exact ⟨i, t, hi, hname, getElem?_textureCode hm h hi⟩

end MeshInterface

/-! ## Bound shaders -/

namespace Shader

/-- Both stages of a bound shader hold the text of the mesh set. In it every value that the host
does not provide is declared for as many elements as its line asks for; a texture is declared for a
single one, whatever its line asks for. -/
theorem sizes_declared {policy : Policy} {host : Host} {shader : Shader} {bound : BoundShader}
    (hrun : (shader.bind policy host).outcome = .ok bound) :
    (∀ text ∈ [bound.vertex, bound.fragment], ∃ before between after,
      text = before ++ bound.mesh.blockCode ++ between ++ bound.mesh.textureCode ++ after) ∧
    ∀ u ∈ (MergedUniforms.ofStages (Source.strip shader.vertex).uniforms
        (Source.strip shader.fragment).uniforms).uniforms,
      (u.isSampler = false → ¬ host.HasMember u.name →
        bound.mesh.DeclaresMember u (Text.bracketCount? u.line.toList)) ∧
      (u.isSampler = true → ¬ host.HasTexture u.name →
        bound.mesh.DeclaresTexture u none ∧
          (bound.mesh.DeclaresTexture u (Text.bracketCount? u.line.toList) ↔
            Text.bracketCount? u.line.toList = none)) := by
  obtain ⟨hmesh, -⟩ := outcome_eq_ok_iff.1 hrun
  have hsound : (shader.interface policy host).uniforms.Sound := MergedUniforms.sound_ofStages _ _
  constructor
  · intro text htext
    obtain ⟨before, after, rfl⟩ := uniforms_in_stages hrun text htext
    refine ⟨before ++ Statement.code host.blockStatements, Statement.code host.textureStatements,
      after, ?_⟩
    simp only [MeshInterface.statements, Statement.code_append, MeshInterface.blockCode,
      MeshInterface.textureCode, String.append_assoc]
  · intro u hu
    constructor
    · intro hvalue hlacks
      refine MeshInterface.declaresMember hsound hmesh ?_
      rw [MeshInterface.ownValues_eq_filter, List.mem_filter, decide_eq_true_eq]
      exact ⟨hu, hvalue, hlacks⟩
    · intro htexture hlacks
      have hown : u ∈ MeshInterface.ownTextures host
          (shader.interface policy host).uniforms.uniforms := by
        rw [MeshInterface.ownTextures_eq_filter, List.mem_filter, decide_eq_true_eq]
        exact ⟨hu, htexture, hlacks⟩
      exact ⟨(MeshInterface.declaresTexture_iff hsound hmesh hown none).2 rfl,
        MeshInterface.declaresTexture_iff hsound hmesh hown _⟩

/-- A shader with an array and a single value, and with an array of textures and an array texture.
-/
def bonesShader : Shader where
  label := none
  vertex := "uniform highp mat4 bones [ 04 ];uniform float time;uniform sampler2D maps[4];\n"
  fragment := "uniform sampler2D maps[4];uniform sampler2DArray layers;"
  semantics := ∅

theorem sizes_declared_bonesShader :
    ∃ bound, (bonesShader.bind {} {}).outcome = .ok bound ∧
      bound.mesh.DeclaresMember
        ⟨"highp mat4 bones [ 04 ]", some .high, "mat4", "bones", .array 4 (by decide), false, false,
          false⟩ (some 4) ∧
      bound.mesh.DeclaresMember
        ⟨"float time", none, "float", "time", .single, false, false, false⟩ none ∧
      bound.mesh.DeclaresTexture
        ⟨"sampler2DArray layers", none, "sampler2DArray", "layers", .single, true, false, false⟩
        none ∧
      ¬ bound.mesh.DeclaresTexture
        ⟨"sampler2D maps[4]", none, "sampler2D", "maps", .array 4 (by decide), true, false, false⟩
        (some 4) := by
  have hvertex : Source.strip bonesShader.vertex = ⟨"@@@\n\n", [], [], [],
      ["highp mat4 bones [ 04 ]", "float time", "sampler2D maps[4]"]⟩ := by
    decide +kernel
  have hfragment : Source.strip bonesShader.fragment = ⟨"@@@\n", [], [], [],
      ["sampler2D maps[4]", "sampler2DArray layers"]⟩ := by
    decide +kernel
  have huniforms : (MergedUniforms.ofStages (Source.strip bonesShader.vertex).uniforms
      (Source.strip bonesShader.fragment).uniforms).uniforms =
      [⟨"highp mat4 bones [ 04 ]", some .high, "mat4", "bones", .array 4 (by decide), false, false,
          false⟩,
        ⟨"float time", none, "float", "time", .single, false, false, false⟩,
        ⟨"sampler2D maps[4]", none, "sampler2D", "maps", .array 4 (by decide), true, false, false⟩,
        ⟨"sampler2DArray layers", none, "sampler2DArray", "layers", .single, true, false, false⟩] := by
    rw [hvertex, hfragment]
    decide +kernel
  have hok : (bonesShader.bind {} {}).outcome.toOption.isSome = true := by
    unfold bind
    rw [hvertex, hfragment]
    decide +kernel
  cases hrun : (bonesShader.bind {} {}).outcome with
  | error failure =>
    rw [hrun] at hok
    cases hok
  | ok bound =>
    obtain ⟨-, hsizes⟩ := sizes_declared hrun
    rw [huniforms] at hsizes
    refine ⟨bound, rfl, (hsizes _ (by simp)).1 rfl (by decide), (hsizes _ (by simp)).1 rfl (by decide),
      ((hsizes _ (by simp)).2 rfl (by decide)).1, fun h => ?_⟩
    exact absurd (((hsizes _ (by simp)).2 rfl (by decide)).2.1 h) (by decide)

/-- A shader of which both stages use an array of textures. -/
def mapsShader : Shader where
  label := none
  vertex := "uniform sampler2D maps[4];\nvoid main() \x7b\x7d\n"
  fragment := "uniform sampler2D maps[4];\nvoid main() \x7b\x7d\n"
  semantics := ∅

theorem bind_mapsShader :
    Text.bracketCount? "sampler2D maps[4]".toList = some 4 ∧
    (mapsShader.bind {} {}).diagnostics.entries = [] ∧
    (mapsShader.bind {} {}).diagnostics.failed = false ∧
    (mapsShader.bind {} {}).outcome.toOption.map (fun b => (b.mesh, b.vertex)) =
      some (⟨none, ⟨[], [⟨"maps", .all, .d2, .float⟩]⟩⟩,
        "\n\nlayout(set = 2, binding = 0) uniform texture2D maps;\n" ++
          "layout(set = 2, binding = 1) uniform sampler maps_sampler;\n\n\nvoid main() \x7b\x7d\n") := by
  have hstrip : Source.strip mapsShader.vertex =
      ⟨"@@@\n\nvoid main() \x7b\x7d\n", [], [], [], ["sampler2D maps[4]"]⟩ := by
    decide +kernel
  have hfragment : Source.strip mapsShader.fragment = Source.strip mapsShader.vertex := rfl
  refine ⟨by decide +kernel, ?_⟩
  unfold bind
  rw [hfragment, hstrip]
  decide +kernel

end Shader

end GlslLayout
