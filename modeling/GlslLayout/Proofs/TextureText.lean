import GlslLayout.Proofs.Addresses

/-!
The text that declares the textures of a bind group determines the textures.

* `Statement.resource_append_inj`: a declaration can be told from what follows it.
* `TextureSlot.Alike`: textures that are declared alike; `TextureSlot.code_append_inj` says that
  nothing else is.
* `BindGroup.alike_of_code`: the same about all textures of a group, and about its buffers.
* `BindGroup.textures_of_code`: where the text binds the textures, and what it determines.
-/

namespace GlslLayout

set_option autoImplicit false

/-! ## Words -/

theorem Text.toString_inj {m n : Nat} (h : toString m = toString n) : m = n := by
  rw [← numeralValue_toString m, h, numeralValue_toString]

/-- A text made of the characters of words. -/
def IsWord (s : String) : Prop :=
  Over (Source.isWordChar · = true) s

instance (s : String) : Decidable (IsWord s) :=
  inferInstanceAs (Decidable (Over _ s))

theorem IsWord.notMem {s : String} (h : IsWord s) {c : Char} (hc : Source.isWordChar c = false) :
    c ∉ s.toList := by
  intro hmem
  rw [h c hmem] at hc
  cases hc

theorem isWord_append {s t : String} (hs : IsWord s) (ht : IsWord t) : IsWord (s ++ t) :=
  over_append_iff.2 ⟨hs, ht⟩

/-! ## One declaration -/

theorem Statement.toList_resource (address : Address) (type name : String) :
    (Statement.resource address type name).text.toList =
      (layoutStart ++ toString address.set ++ ", binding = ").toList ++
        ((toString address.binding).toList ++ ')' :: (" uniform ".toList ++
          (type.toList ++ ' ' :: (name.toList ++ [';', '\n'])))) := by
  rw [text_resource, String.toList_append, toList_heading]
  simp only [String.toList_append, List.append_assoc]
  rfl

theorem Statement.resource_append_inj {set b b' : Nat} {type name type' name' : String}
    {s s' : List Char} (htype : IsWord type) (htype' : IsWord type') (hname : IsWord name)
    (hname' : IsWord name')
    (h : (Statement.resource ⟨set, b⟩ type name).text.toList ++ s =
      (Statement.resource ⟨set, b'⟩ type' name').text.toList ++ s') :
    b = b' ∧ type = type' ∧ name = name' ∧ s = s' := by
  have hparen : ∀ n : Nat, ')' ∉ (toString n).toList := by
    intro n hmem
    exact absurd (Text.isDigit_of_mem_toString hmem) (by decide)
  rw [toList_resource, toList_resource] at h
  simp only [List.append_assoc, List.cons_append] at h
  obtain ⟨hb, hrest⟩ := Text.append_mark_inj (hparen b) (hparen b') (List.append_cancel_left h)
  obtain ⟨ht, hrest⟩ := Text.append_mark_inj (htype.notMem (by decide)) (htype'.notMem (by decide))
    (List.append_cancel_left hrest)
  obtain ⟨hn, hrest⟩ := Text.append_mark_inj (hname.notMem (by decide)) (hname'.notMem (by decide))
    hrest
  exact ⟨Text.toString_inj (String.toList_injective hb), String.toList_injective ht,
    String.toList_injective hn, (List.cons.inj hrest).2⟩

/-! ## One texture -/

/-- The sample type as shader text tells it: whether floats can be filtered is not declared. -/
def SampleType.declared : SampleType → SampleType
  | .unfilterableFloat => .float
  | type => type

/-- The two textures are declared alike. -/
structure TextureSlot.Alike (t t' : TextureSlot) : Prop where
  name : t.name = t'.name
  dimension : t.dimension = t'.dimension
  sampleType : t.sampleType.declared = t'.sampleType.declared

theorem Dimension.suffix_inj {d d' : Dimension} (h : d.suffix = d'.suffix) : d = d' := by
  revert h
  cases d <;> cases d' <;> decide

theorem SampleType.letter_cases (type : SampleType) :
    type.letter = "" ∨ type.letter = "i" ∨ type.letter = "u" := by
  cases type <;> decide

theorem SampleType.letter_append_inj {s s' : SampleType} {d d' : Dimension}
    (h : s.letter ++ d.textureType = s'.letter ++ d'.textureType) : s.letter = s'.letter ∧ d = d' := by
  have hletter : s.letter = s'.letter := by
    have hhead := congrArg (fun text => text.toList.head?) h
    rcases s.letter_cases with hs | hs | hs <;> rcases s'.letter_cases with hs' | hs' | hs' <;>
      simp [hs, hs', Dimension.textureType] at hhead ⊢
  rw [hletter, String.append_right_inj, Dimension.textureType, Dimension.textureType,
    String.append_right_inj] at h
  exact ⟨hletter, Dimension.suffix_inj h⟩

namespace TextureSlot

theorem declared_eq {t t' : TextureSlot} (hletter : t.sampleType.letter = t'.sampleType.letter)
    (hsampler : t.samplerType = t'.samplerType) :
    t.sampleType.declared = t'.sampleType.declared := by
  unfold samplerType at hsampler
  revert hletter hsampler
  cases t.sampleType <;> cases t'.sampleType <;> decide

theorem Alike.arraySamplerType {t t' : TextureSlot} (h : t.Alike t') :
    t.arraySamplerType = t'.arraySamplerType := by
  have htype := h.sampleType
  unfold TextureSlot.arraySamplerType
  revert htype
  cases t.sampleType <;> cases t'.sampleType <;> decide

theorem Alike.combinations {t t' : TextureSlot} (h : t.Alike t') :
    t.combinations = t'.combinations := by
  rw [TextureSlot.combinations, TextureSlot.combinations, h.dimension, h.name, h.arraySamplerType]

theorem isWord_viewName {t : TextureSlot} (h : IsWord t.name) : IsWord t.viewName := by
  unfold viewName
  split
  · exact isWord_append h (by decide)
  · exact h

theorem code_append_ne (t : TextureSlot) (address : Address) (code : String) :
    Statement.code (t.statements address) ++ code ≠ "" := by
  intro h
  have hlist := congrArg String.toList h
  simp [statements_eq, resources, Statement.code, Statement.toList_resource, layoutStart] at hlist

/-- The declarations of a texture can be told from what follows them, and tell all but whether
floats can be filtered. -/
theorem code_append_inj {t t' : TextureSlot} {set b b' : Nat} {s s' : List Char}
    (ht : IsWord t.name) (ht' : IsWord t'.name)
    (h : (Statement.code (t.statements ⟨set, b⟩)).toList ++ s =
      (Statement.code (t'.statements ⟨set, b'⟩)).toList ++ s') :
    b = b' ∧ t.Alike t' ∧ s = s' := by
  have hwords : ∀ c, Source.isWordChar c = true → Source.isWordChar c = true := fun _ => id
  simp only [statements_eq, resources, Statement.code_append, Statement.code, String.toList_append,
    List.append_assoc, String.append_empty] at h
  obtain ⟨hb, htype, hview, hrest⟩ := Statement.resource_append_inj (over_textureType hwords t)
    (over_textureType hwords t') (isWord_viewName ht) (isWord_viewName ht') h
  obtain ⟨-, hsampler, hname, hrest⟩ := Statement.resource_append_inj (over_samplerType hwords t)
    (over_samplerType hwords t') (isWord_append ht (by decide)) (isWord_append ht' (by decide)) hrest
  obtain ⟨hletter, hdimension⟩ := SampleType.letter_append_inj htype
  have halike : t.Alike t' :=
    ⟨(String.append_left_inj _).1 hname, hdimension, declared_eq hletter hsampler⟩
  rw [halike.combinations] at hrest
  exact ⟨hb, halike, List.append_cancel_left hrest⟩

end TextureSlot

/-! ## All textures of a group -/

namespace BindGroup

theorem alike_of_code {ts ts' : List TextureSlot} {set n n' : Nat} (k : Nat)
    (hts : ∀ t ∈ ts, IsWord t.name) (hts' : ∀ t ∈ ts', IsWord t.name)
    (h : Statement.code ((ts.zipIdx k).flatMap fun e => e.1.statements ⟨set, n + 2 * e.2⟩) =
      Statement.code ((ts'.zipIdx k).flatMap fun e => e.1.statements ⟨set, n' + 2 * e.2⟩)) :
    List.Forall₂ TextureSlot.Alike ts ts' ∧ (ts ≠ [] → n = n') := by
  induction ts generalizing ts' k with
  | nil =>
    cases ts' with
    | nil => exact ⟨.nil, by simp⟩
    | cons t' ts' =>
      rw [List.zipIdx_cons, List.flatMap_cons, Statement.code_append] at h
      exact absurd h.symm (t'.code_append_ne _ _)
  | cons t ts ih =>
    cases ts' with
    | nil =>
      rw [List.zipIdx_cons, List.flatMap_cons, Statement.code_append] at h
      exact absurd h (t.code_append_ne _ _)
    | cons t' ts' =>
      simp only [List.zipIdx_cons, List.flatMap_cons, Statement.code_append] at h
      have hlist := congrArg String.toList h
      rw [String.toList_append, String.toList_append] at hlist
      obtain ⟨hb, halike, hrest⟩ := TextureSlot.code_append_inj (hts t List.mem_cons_self)
        (hts' t' List.mem_cons_self) hlist
      obtain ⟨hall, -⟩ := ih (k + 1) (fun u hu => hts u (List.mem_cons_of_mem t hu))
        (fun u hu => hts' u (List.mem_cons_of_mem t' hu)) (String.toList_injective hrest)
      exact ⟨.cons halike hall, fun _ => by omega⟩

/-- How a text binds the textures of a group in a set. -/
structure BoundIn (g : BindGroup) (set : Nat) (code : String) : Prop where
  /-- The bindings behind those of the buffers are taken, one line each, in order. -/
  bindings : (linesStarting "layout(set = " code).map lineAddress? =
    ((List.range g.bindingCount).drop g.buffers.length).map fun b => some ⟨set, b⟩
  views : ∀ i t, g.textures[i]? = some t → (linesStarting "layout(set = " code)[2 * i]? =
    some ("layout(set = " ++ toString set ++ ", binding = " ++ toString (g.buffers.length + 2 * i) ++
      ") uniform " ++ t.textureType ++ " " ++ t.viewName ++ ";")
  lookup : ∀ i t, g.textures[i]? = some t → (∀ t' ∈ g.textures.take i, t'.name ≠ t.name) →
    g.textureBinding? t.name = some (g.buffers.length + 2 * i)

theorem oneLine_textureStatements {g : BindGroup} (hg : ∀ t ∈ g.textures, NoBreak t.name)
    (set : Nat) : ∀ s ∈ g.textureStatements set, s.Spelled (· ≠ '\n') :=
  spelled_textureStatements ne_break_of_isWordChar (fun t ht => noBreak_iff_over.1 (hg t ht)) set

theorem views_code {g : BindGroup} (hg : ∀ t ∈ g.textures, NoBreak t.name) (set : Nat) {i : Nat}
    {t : TextureSlot} (ht : g.textures[i]? = some t) :
    (linesStarting "layout(set = " (Statement.code (g.textureStatements set)))[2 * i]? =
      some ("layout(set = " ++ toString set ++ ", binding = " ++
        toString (g.buffers.length + 2 * i) ++ ") uniform " ++ t.textureType ++ " " ++ t.viewName ++
        ";") := by
  rw [linesStarting_layout (oneLine_textureStatements hg set),
    filterMap_textureStatements _ _ fun _ _ => rfl, (g.headings_resources set ht).1]
  simp [heading, layoutStart, textureBinding, String.append_assoc]

theorem boundIn_code {g : BindGroup} (hg : ∀ t ∈ g.textures, IsWord t.name) (set : Nat) :
    g.BoundIn set (Statement.code (g.textureStatements set)) := by
  have hnames : ∀ t ∈ g.textures, NoBreak t.name := fun t ht => (hg t ht).notMem (by decide)
  constructor
  case bindings =>
    rw [lineAddresses_code (oneLine_textureStatements hnames set), addresses_textureStatements,
      bindingCount, textureBinding, List.range_eq_range', List.drop_range', List.map_map]
    simp [Function.comp_def]
  case views => exact fun i t ht => views_code hnames set ht
  case lookup => exact fun i t ht hfirst => textureBinding?_of_first ht hfirst

/-- The declarations of the textures of a group bind them behind the buffers, and no other group has
the same declarations unless its textures are alike and stand behind as many buffers. -/
theorem textures_of_code {g : BindGroup} (hg : ∀ t ∈ g.textures, IsWord t.name) (set : Nat) :
    g.BoundIn set (Statement.code (g.textureStatements set)) ∧
    ∀ g' : BindGroup, (∀ t ∈ g'.textures, IsWord t.name) →
      Statement.code (g.textureStatements set) = Statement.code (g'.textureStatements set) →
      List.Forall₂ TextureSlot.Alike g.textures g'.textures ∧
        (g.textures ≠ [] → g.buffers.length = g'.buffers.length) :=
  ⟨boundIn_code hg set, fun _ hg' hcode => alike_of_code 0 hg hg' hcode⟩

/-- A texture with the name that the view of an array texture is declared under. -/
def layeredGroup (sampleType : SampleType) : BindGroup where
  buffers := [⟨"default", .all⟩]
  textures := [⟨"layers_texture", .all, .cube, sampleType⟩, ⟨"layers", .all, .d2Array, .unsigned⟩]

theorem textures_of_code_layeredGroup :
    (∀ t ∈ (layeredGroup .float).textures, IsWord t.name) ∧
    (layeredGroup .float).BoundIn 1 (Statement.code ((layeredGroup .float).textureStatements 1)) ∧
    Statement.code ((layeredGroup .float).textureStatements 1) =
      Statement.code ((layeredGroup .unfilterableFloat).textureStatements 1) ∧
    List.Forall₂ TextureSlot.Alike (layeredGroup .float).textures
      (layeredGroup .unfilterableFloat).textures := by
  have hnames : ∀ type, ∀ t ∈ (layeredGroup type).textures, IsWord t.name := by
    intro type
    cases type <;> decide
  have hcode : Statement.code ((layeredGroup .float).textureStatements 1) =
      Statement.code ((layeredGroup .unfilterableFloat).textureStatements 1) := by decide +kernel
  obtain ⟨hbound, hsame⟩ := textures_of_code (hnames .float) 1
  exact ⟨hnames .float, hbound, hcode, (hsame _ (hnames .unfilterableFloat) hcode).1⟩

end BindGroup

end GlslLayout
