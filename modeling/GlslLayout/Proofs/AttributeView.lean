import GlslLayout.Proofs.Attribute
import GlslLayout.Proofs.Statement

/-!
With which type the body of a shader sees an attribute.

* `vectorTypes`: the names of a scalar type and of its vectors.
* `seenType_declaredWidth_eq_iff`: a converted attribute keeps its type exactly if that is a type of
  floats.
* `Shows`: a text declares a name with a type, as an input or from an input.
* `MappedAttribute.DeclaredBy`: how an attribute is declared, and when the declared type is kept.
* `AttributeInterface.code_declaredBy`: the attributes of any lines are declared so.
-/

namespace GlslLayout

set_option autoImplicit false

/-! ## Types -/

/-- A scalar type, and the types of its vectors: a name with one digit, which is not `1`. -/
def vectorTypes (scalar vector : String) : List String :=
  scalar :: ["0", "2", "3", "4", "5", "6", "7", "8", "9"].map (vector ++ ·)

def floatTypes : List String := vectorTypes "float" "vec"

def integerTypes : List String := vectorTypes "int" "ivec" ++ vectorTypes "uint" "uvec"

theorem declaredWidth_le (type : String) : declaredWidth type ≤ 9 := by
  unfold declaredWidth
  split
  · decide
  · next c _ =>
    split
    · next hdigit =>
      have hle := UInt32.le_iff_toNat_le.1 (of_decide_eq_true (Bool.and_eq_true_iff.1 hdigit).2)
      have hnine : '9'.val.toNat = 57 := by decide
      have hzero : '0'.toNat = 48 := by decide
      have hc : c.toNat = c.val.toNat := rfl
      omega
    · decide

theorem seenType_mem (type : String) :
    seenType (declaredWidth type) ∈ floatTypes ∧
      declaredWidth (seenType (declaredWidth type)) = declaredWidth type := by
  have hall : ∀ k ∈ List.range 10, seenType k ∈ floatTypes ∧ declaredWidth (seenType k) = k := by
    decide +kernel
  exact hall _ (List.mem_range.2 (Nat.lt_succ_of_le (declaredWidth_le type)))

theorem fetchedType_mem (signed : Bool) (type : String) :
    fetchedType signed (declaredWidth type) ∈ integerTypes ∧
      declaredWidth (fetchedType signed (declaredWidth type)) = declaredWidth type := by
  have hall : ∀ signed : Bool, ∀ k ∈ List.range 10,
      fetchedType signed k ∈ integerTypes ∧ declaredWidth (fetchedType signed k) = k := by
    decide +kernel
  exact hall signed _ (List.mem_range.2 (Nat.lt_succ_of_le (declaredWidth_le type)))

theorem seenType_declaredWidth_eq_iff (type : String) :
    seenType (declaredWidth type) = type ↔ type ∈ floatTypes := by
  have hall : ∀ t ∈ floatTypes, seenType (declaredWidth t) = t := by decide +kernel
  constructor
  · intro h
    rw [← h]
    exact (seenType_mem type).1
  · exact hall type

/-! ## Texts -/

def inputText (location : Nat) (type name : String) : String :=
  "layout(location=" ++ toString location ++ ") in " ++ type ++ " " ++ name ++ ";\n"

def conversionText (type name input : String) : String :=
  type ++ " " ++ name ++ " = " ++ type ++ "(" ++ input ++ ");\n"

/-- The text declares the name with the type: as the input at the location, or with the value of the
input there, which has the hidden name and another type. -/
def Shows (text hidden : String) (location : Nat) (type name : String) : Prop :=
  text = inputText location type name ∨
    ∃ fetched, text = inputText location fetched hidden ++ conversionText type name hidden

theorem noBreak_of_over {s : String} (h : Over (Text.isBlank · = false) s) : NoBreak s := fun hmem =>
  absurd (h _ hmem) (by decide)

/-- What holds an input and a conversion is no input: the first of its line breaks is not the last.
-/
theorem input_conversion_ne {hidden fetched seen type name : String} {location : Nat}
    (htype : NoBreak type) (hname : NoBreak name) :
    inputText location fetched hidden ++ conversionText seen name hidden ≠
      inputText location type name := by
  intro h
  have hinput : ∀ t n, inputText location t n =
      "layout(location=" ++ toString location ++ ") in " ++ t ++ " " ++ n ++ ";" ++ "\n" := by
    intro t n
    have hstop : ";" ++ "\n" = ";\n" := by decide
    rw [String.append_assoc, hstop]
    rfl
  have hconversion : conversionText seen name hidden =
      seen ++ " " ++ name ++ " = " ++ seen ++ "(" ++ hidden ++ ");" ++ "\n" := by
    have hstop : ");" ++ "\n" = ");\n" := by decide
    rw [String.append_assoc, hstop]
    rfl
  rw [hinput type name, hconversion, ← String.append_assoc, String.append_left_inj] at h
  have hplain : NoBreak ("layout(location=" ++ toString location ++ ") in " ++ type ++ " " ++ name ++
      ";") := by
    refine noBreak_append (noBreak_append (noBreak_append (noBreak_append (noBreak_append
      (noBreak_append ?_ (noBreak_toString location)) ?_) htype) ?_) hname) ?_ <;> decide
  rw [← h, NoBreak, String.toList_append, List.mem_append, hinput, String.toList_append,
    List.mem_append] at hplain
  exact hplain (Or.inl (Or.inr (by decide)))

/-- A conversion tells the type that it converts to. -/
theorem conversion_inj {start start' hidden seen type name : String}
    (hseen : Over (Text.isBlank · = false) seen) (htype : Over (Text.isBlank · = false) type)
    (h : start ++ conversionText seen name hidden = start' ++ conversionText type name hidden) :
    seen = type := by
  have hspace : ∀ s : String, Over (Text.isBlank · = false) s → ' ' ∉ s.toList := fun s hs hmem =>
    absurd (hs _ hmem) (by decide)
  have hsplit : ∀ s t, s ++ conversionText t name hidden =
      s ++ t ++ " " ++ name ++ " =" ++ (" " ++ t) ++ ("(" ++ hidden ++ ");\n") := by
    intro s t
    have hmark : " = " = " =" ++ " " := by decide
    simp only [conversionText, hmark, String.append_assoc]
  have hlast : ∀ s t : String, (s ++ (" " ++ t)).toList = s.toList ++ ' ' :: t.toList := by
    intro s t
    rw [String.toList_append, String.toList_append]
    rfl
  rw [hsplit, hsplit, String.append_left_inj, ← String.toList_inj, hlast, hlast] at h
  exact String.toList_injective
    (Text.append_lastMark_inj (hspace seen hseen) (hspace type htype) h).2

theorem shows_conversion_iff {hidden fetched seen type name : String} {location : Nat}
    (hseen : Over (Text.isBlank · = false) seen) (htype : Over (Text.isBlank · = false) type)
    (hname : Over (Text.isBlank · = false) name) :
    Shows (inputText location fetched hidden ++ conversionText seen name hidden) hidden location type
      name ↔ seen = type := by
  constructor
  · rintro (hinput | ⟨fetched', hconversion⟩)
    · exact absurd hinput (input_conversion_ne (noBreak_of_over htype) (noBreak_of_over hname))
    · exact conversion_inj hseen htype hconversion
  · rintro rfl
    exact Or.inr ⟨fetched, rfl⟩

/-! ## One attribute -/

/-- The host stores raw integers for a semantic, and the shader did not ask for them. -/
def Host.StoresIntegers (host : Host) (semantic : Semantic) : Prop :=
  ∃ element, host.elements semantic = some element ∧ element.component.isFloat = false ∧
    element.normalized = false ∧ element.asInteger = false

theorem MappedAttribute.converted?_eq_some_iff {host : Host} {a : MappedAttribute}
    {element : ElementFormat} :
    a.converted? host = some element ↔
      host.elements a.semantic = some element ∧ element.component.isFloat = false ∧
        element.normalized = false ∧ element.asInteger = false := by
  simp [converted?, Option.filter_eq_some_iff, ElementFormat.needsConversion, and_assoc]

theorem Declarator.Opens.over {line : String} {d : Declarator} (h : d.Opens line) :
    Over (Text.isBlank · = false) d.type ∧ Over (Text.isBlank · = false) d.name := by
  obtain ⟨rest, hwords⟩ := h
  have hword : ∀ w ∈ Text.words line.toList, ∀ c ∈ w, Text.isBlank c = false :=
    fun w hw => Text.not_isBlank_of_mem_words hw
  rw [hwords] at hword
  exact ⟨hword _ (by simp), hword _ (by simp)⟩

/-- How the text of an attribute declares it. -/
structure MappedAttribute.DeclaredBy (policy : Policy) (host : Host) (a : MappedAttribute)
    (text : String) : Prop where
  /-- What is not stored as raw integers is declared as it was. -/
  plain : ¬ host.StoresIntegers a.semantic →
    text = inputText a.semantic.location a.declared.type a.declared.name
  /-- Raw integers are fetched under a hidden name, and seen as as many floats. -/
  converted : host.StoresIntegers a.semantic → ∃ fetched ∈ integerTypes, ∃ seen ∈ floatTypes,
    declaredWidth fetched = declaredWidth a.declared.type ∧
    declaredWidth seen = declaredWidth a.declared.type ∧
    text = inputText a.semantic.location fetched (policy.hiddenStart ++ a.declared.name) ++
      conversionText seen a.declared.name (policy.hiddenStart ++ a.declared.name)
  /-- The name has its declared type exactly if that is a type of floats or nothing is converted. -/
  shows : Shows text (policy.hiddenStart ++ a.declared.name) a.semantic.location a.declared.type
    a.declared.name ↔ (host.StoresIntegers a.semantic → a.declared.type ∈ floatTypes)

namespace MappedAttribute

variable {policy : Policy} {host : Host} {a : MappedAttribute}

theorem code_of_plain (h : a.converted? host = none) :
    Statement.code (a.statements policy host) =
      inputText a.semantic.location a.declared.type a.declared.name := by
  simp only [statements, placed, h, Statement.code, String.append_empty]
  rfl

theorem code_of_converted {element : ElementFormat} (h : a.converted? host = some element) :
    Statement.code (a.statements policy host) =
      inputText a.semantic.location
          (fetchedType element.component.isSigned (declaredWidth a.declared.type))
          (policy.hiddenStart ++ a.declared.name) ++
        conversionText (seenType (declaredWidth a.declared.type)) a.declared.name
          (policy.hiddenStart ++ a.declared.name) := by
  simp only [statements, placed, h, Statement.code, String.append_empty]
  rfl

theorem over_floatTypes : ∀ type ∈ floatTypes, Over (Text.isBlank · = false) type := by
  decide +kernel

theorem declaredBy_code (htype : Over (Text.isBlank · = false) a.declared.type)
    (hname : Over (Text.isBlank · = false) a.declared.name) :
    a.DeclaredBy policy host (Statement.code (a.statements policy host)) := by
  cases hconverted : a.converted? host with
  | none =>
    have hstores : ¬ host.StoresIntegers a.semantic := by
      rintro ⟨element, helement⟩
      rw [converted?_eq_some_iff.2 helement] at hconverted
      cases hconverted
    rw [code_of_plain hconverted]
    exact {
      plain := fun _ => rfl
      converted := fun h => absurd h hstores
      shows := ⟨fun _ h => absurd h hstores, fun _ => Or.inl rfl⟩ }
  | some element =>
    have hstores : host.StoresIntegers a.semantic := ⟨element, converted?_eq_some_iff.1 hconverted⟩
    obtain ⟨hseen, hseenWidth⟩ := seenType_mem a.declared.type
    obtain ⟨hfetched, hfetchedWidth⟩ := fetchedType_mem element.component.isSigned a.declared.type
    rw [code_of_converted hconverted]
    constructor
    case plain => exact fun h => absurd hstores h
    case converted =>
      exact fun _ => ⟨_, hfetched, _, hseen, hfetchedWidth, hseenWidth, rfl⟩
    case shows =>
      rw [shows_conversion_iff (over_floatTypes _ hseen) htype hname, seenType_declaredWidth_eq_iff]
      exact ⟨fun h _ => h, fun h => h hstores⟩

end MappedAttribute

/-! ## All attributes -/

theorem Statement.code_flatMap {α : Type} (f : α → List Statement) (l : List α) :
    code (l.flatMap f) = String.join (l.map fun a => code (f a)) := by
  induction l with
  | nil => rfl
  | cons a l ih => rw [List.flatMap_cons, code_append, ih, List.map_cons, String.join_cons]

/-- The code of the attributes declares, one after another, those that have a semantic, each with
its declared type or, if integers have to be converted, with the float type of as many components.
-/
theorem AttributeInterface.code_declaredBy (policy : Policy) (host : Host) (semantics : SemanticMap)
    (lines : List String) :
    ∃ texts, Statement.code (ofLines policy host semantics lines).statements = String.join texts ∧
      List.Forall₂
        (fun line text => ∃ d semantic, Declarator.Opens d line ∧
          semantics[d.name]? = some semantic ∧
          MappedAttribute.DeclaredBy policy host ⟨d, semantic⟩ text)
        (lines.filter (hasSemantic semantics)) texts := by
  rw [statements_ofLines]
  refine ⟨_, Statement.code_flatMap _ _, ?_⟩
  refine List.forall₂_map_right_iff.2 ((forall₂_mappedAttributes semantics lines).imp ?_)
  rintro line a ⟨hopens, hsemantic⟩
  obtain ⟨htype, hname⟩ := hopens.over
  exact ⟨a.declared, a.semantic, hopens, hsemantic, MappedAttribute.declaredBy_code htype hname⟩

/-- A host that stores the indices of joints as bytes. -/
def byteJoints : Host :=
  Host.withElement {} .blendIndices ⟨.unsigned .bits8, false, false⟩

theorem AttributeInterface.code_byteJoints :
    byteJoints.StoresIntegers .blendIndices ∧
    Statement.code (ofLines {} byteJoints (.ofList [("joints", Semantic.blendIndices)])
        ["ivec4 joints"]).statements =
      "layout(location=3) in uvec4 _private_joints;\nvec4 joints = vec4(_private_joints);\n" ∧
    ¬ Shows "layout(location=3) in uvec4 _private_joints;\nvec4 joints = vec4(_private_joints);\n"
      "_private_joints" 3 "ivec4" "joints" := by
  have htext : "layout(location=3) in uvec4 _private_joints;\nvec4 joints = vec4(_private_joints);\n" =
      inputText 3 "uvec4" "_private_joints" ++ conversionText "vec4" "joints" "_private_joints" := by
    decide +kernel
  refine ⟨⟨_, rfl, rfl, rfl, rfl⟩, by decide +kernel, ?_⟩
  rw [htext, shows_conversion_iff (by decide) (by decide) (by decide)]
  decide

end GlslLayout
