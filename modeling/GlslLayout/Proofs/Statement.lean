import GlslLayout.Proofs.Text
import GlslLayout.Source.Cut
import GlslLayout.Statement

/-!
The lines that generated statements leave in shader text.

* `heading`, `Statement.heading?`: the line with the address of a statement.
* `Statement.Spelled`: statements that declare uniforms, and the characters of their names.
* `linesStarting_code`: the lines of a code that start with a layout are the headings.
* `lineAddress?`, `lineAddress?_heading`: reading the address of a line.
* `linesStarting_setStart`: the lines of one set are the headings of its statements.
-/

namespace GlslLayout

set_option autoImplicit false

/-! ## Text on one line -/

/-- A text without line breaks. -/
def NoBreak (s : String) : Prop :=
  '\n' ∉ s.toList

instance (s : String) : Decidable (NoBreak s) :=
  inferInstanceAs (Decidable ('\n' ∉ s.toList))

theorem noBreak_append {s t : String} (hs : NoBreak s) (ht : NoBreak t) : NoBreak (s ++ t) := by
  unfold NoBreak at *
  rw [String.toList_append, List.mem_append, not_or]
  exact ⟨hs, ht⟩

/-- A text all of whose characters have a property. -/
def Over (p : Char → Prop) (s : String) : Prop :=
  ∀ c ∈ s.toList, p c

instance (p : Char → Prop) [DecidablePred p] (s : String) : Decidable (Over p s) :=
  List.decidableBAll p s.toList

theorem over_append_iff {p : Char → Prop} {s t : String} :
    Over p (s ++ t) ↔ Over p s ∧ Over p t := by
  simp only [Over, String.toList_append, List.mem_append, or_imp, forall_and]

theorem over_of_wordChars {p : Char → Prop} (hp : ∀ c, Source.isWordChar c = true → p c)
    {s : String} (h : s.toList.all Source.isWordChar = true) : Over p s :=
  fun c hc => hp c (List.all_eq_true.1 h c hc)

theorem noBreak_iff_over {s : String} : NoBreak s ↔ Over (· ≠ '\n') s :=
  ⟨fun h _ hc hbreak => h (hbreak ▸ hc), fun h hc => h _ hc rfl⟩

theorem ne_break_of_isWordChar (c : Char) (h : Source.isWordChar c = true) : c ≠ '\n' := by
  rintro rfl
  revert h
  decide

theorem noBreak_toString (n : Nat) : NoBreak (toString n) := by
  intro h
  have hdigit := Text.isDigit_of_mem_toString h
  revert hdigit
  decide

theorem noBreak_valueType (type : ValueType) : NoBreak type.name := by
  rcases type with c | ⟨c, w⟩ | w
  · cases c <;> decide
  · cases c <;> cases w <;> decide
  · cases w <;> decide

theorem noBreak_brackets (e : Extent) : NoBreak e.brackets := by
  cases e with
  | single => decide
  | array n h =>
    exact noBreak_append (noBreak_append (by decide) (noBreak_toString n)) (by decide)

theorem noBreak_setName (set : Nat) : NoBreak (setName set) := by
  unfold setName
  split
  · decide
  · split
    · decide
    · split
      · decide
      · exact noBreak_append (by decide) (noBreak_toString set)

/-! ## Headings -/

/-- How the line starts that gives a declaration its address. -/
def layoutStart : String := "layout(set = "

/-- A line that gives a declaration its address, with what follows the binding. -/
def heading (address : Address) (ending : String) : String :=
  layoutStart ++ toString address.set ++ ", binding = " ++ toString address.binding ++ ending

namespace Statement

/-- The line with the address of a statement that has one. -/
def heading? : Statement → Option String
  | .block address _ =>
    some (heading address (", std140) uniform " ++ blockName address.set ++ " \x7b"))
  | .resource address type name => some (heading address (") uniform " ++ type ++ " " ++ name ++ ";"))
  | _ => none

/-- A declaration of uniforms whose names and types are made of characters with a property. -/
def Spelled (p : Char → Prop) : Statement → Prop
  | .block _ members => ∀ m ∈ members, Over p m.name
  | .resource _ type name => Over p type ∧ Over p name
  | .combination name sampler => Over p name ∧ Over p sampler
  | _ => False

end Statement

theorem noBreak_heading {address : Address} {ending : String} (h : NoBreak ending) :
    NoBreak (heading address ending) := by
  refine noBreak_append (noBreak_append (noBreak_append (noBreak_append ?_ ?_) ?_) ?_) h
  · decide
  · exact noBreak_toString _
  · decide
  · exact noBreak_toString _

/-- The line of a member, without its line break. -/
def memberLine (m : Member) : String :=
  "    " ++ m.type.name ++ " " ++ m.name ++ m.extent.brackets ++ ";"

theorem noBreak_memberLine {m : Member} (h : NoBreak m.name) : NoBreak (memberLine m) := by
  refine noBreak_append (noBreak_append (noBreak_append (noBreak_append (noBreak_append ?_ ?_) ?_)
    h) ?_) ?_
  · decide
  · exact noBreak_valueType _
  · decide
  · exact noBreak_brackets _
  · decide

theorem lines_append {s : String} (h : NoBreak s) (t : List Char) :
    Text.lines ((s ++ "\n").toList ++ t) = s.toList :: Text.lines t := by
  have hbreak : (s ++ "\n").toList ++ t = s.toList ++ '\n' :: t := by simp
  rw [hbreak, Text.lines_append_lineBreak h]

theorem lines_members {members : List Member} (h : ∀ m ∈ members, NoBreak m.name) (t : List Char) :
    Text.lines ((Member.lines members).toList ++ t) =
      members.map (fun m => (memberLine m).toList) ++ Text.lines t := by
  induction members with
  | nil => simp [Member.lines]
  | cons m members ih =>
    have hline : m.line = memberLine m ++ "\n" := by
      simp [Member.line, memberLine, String.append_assoc]
    have hrest := ih fun m' hm' => h m' (List.mem_cons_of_mem m hm')
    rw [Member.lines, String.toList_append, List.append_assoc, hline,
      lines_append (noBreak_memberLine (h m (by simp))), hrest]
    rfl

theorem not_layoutStart_of_head {l : List Char} (h : l.head? ≠ some 'l') :
    ¬ layoutStart.toList <+: l := by
  rintro ⟨t, rfl⟩
  exact h rfl

/-! ## Lines of statements -/

theorem lines_block {address : Address} {members : List Member} (h : ∀ m ∈ members, NoBreak m.name)
    (t : List Char) :
    Text.lines ((Statement.block address members).text.toList ++ t) =
      (heading address (", std140) uniform " ++ Statement.blockName address.set ++ " \x7b")).toList ::
        (members.map (fun m => (memberLine m).toList) ++ "\x7d;".toList :: Text.lines t) := by
  have htext : (Statement.block address members).text =
      heading address (", std140) uniform " ++ Statement.blockName address.set ++ " \x7b") ++ "\n" ++
        (Member.lines members ++ ("\x7d;" ++ "\n")) := by
    unfold Statement.text
    simp [heading, layoutStart, String.append_assoc]
  have hhead : NoBreak (", std140) uniform " ++ Statement.blockName address.set ++ " \x7b") := by
    refine noBreak_append (noBreak_append (by decide) ?_) (by decide)
    exact noBreak_append (by decide) (noBreak_setName _)
  rw [htext, String.toList_append, List.append_assoc, lines_append (noBreak_heading hhead),
    String.toList_append, List.append_assoc, lines_members h, lines_append (by decide)]

theorem text_resource (address : Address) (type name : String) :
    (Statement.resource address type name).text =
      heading address (") uniform " ++ type ++ " " ++ name ++ ";") ++ "\n" := by
  unfold Statement.text
  simp [heading, layoutStart, String.append_assoc]

/-- Of the lines of a statement only its heading starts with a layout. -/
theorem lines_text {s : Statement} (h : s.Spelled (· ≠ '\n')) (t : List Char) :
    ∃ others : List (List Char),
      Text.lines (s.text.toList ++ t) =
        (s.heading?.map String.toList).toList ++ others ++ Text.lines t ∧
      ∀ l ∈ others, ¬ layoutStart.toList <+: l := by
  cases s with
  | block address members =>
    refine ⟨members.map (fun m => (memberLine m).toList) ++ ["\x7d;".toList], ?_, ?_⟩
    · rw [lines_block fun m hm => noBreak_iff_over.2 (h m hm)]
      simp [Statement.heading?]
    · intro l hl
      rcases List.mem_append.1 hl with hl | hl
      · obtain ⟨m, -, rfl⟩ := List.mem_map.1 hl
        exact not_layoutStart_of_head (by simp [memberLine])
      · obtain rfl := List.mem_singleton.1 hl
        exact not_layoutStart_of_head (by decide)
  | resource address type name =>
    have htype := noBreak_iff_over.2 h.1
    have hname := noBreak_iff_over.2 h.2
    have hhead : NoBreak (") uniform " ++ type ++ " " ++ name ++ ";") := by
      refine noBreak_append (noBreak_append (noBreak_append (noBreak_append ?_ htype) ?_) hname) ?_
      · decide
      · decide
      · decide
    refine ⟨[], ?_, by simp⟩
    rw [text_resource, lines_append (noBreak_heading hhead)]
    rfl
  | combination name sampler =>
    let line := "#define " ++ name ++ " " ++ sampler ++ "(" ++ Statement.textureName name ++ ", " ++
      Statement.samplerName name ++ ")"
    have htext : (Statement.combination name sampler).text = line ++ "\n" := by
      unfold Statement.text
      simp [line, String.append_assoc]
    have hname := noBreak_iff_over.2 h.1
    have hkind := noBreak_iff_over.2 h.2
    have hline : NoBreak line := by
      have htexture : NoBreak (Statement.textureName name) := noBreak_append hname (by decide)
      have hsampler : NoBreak (Statement.samplerName name) := noBreak_append hname (by decide)
      refine noBreak_append (noBreak_append (noBreak_append (noBreak_append (noBreak_append
        (noBreak_append (noBreak_append (noBreak_append ?_ hname) ?_) hkind) ?_) htexture) ?_)
        hsampler) ?_ <;> decide
    refine ⟨[line.toList], ?_, ?_⟩
    · rw [htext, lines_append hline]
      rfl
    · intro l hl
      obtain rfl := List.mem_singleton.1 hl
      exact not_layoutStart_of_head (by simp [line])
  | vertexInput _ _ _ => exact h.elim
  | conversion _ _ _ => exact h.elim
  | varying _ _ _ _ => exact h.elim
  | fragmentOutput _ _ => exact h.elim

/-- Lines that start with a layout are the headings of the statements, in order. -/
theorem filter_lines_code {p : List Char → Bool} (hp : ∀ l, p l = true → layoutStart.toList <+: l)
    {ss : List Statement} (hss : ∀ s ∈ ss, s.Spelled (· ≠ '\n')) :
    (Text.lines (Statement.code ss).toList).filter p =
      ((ss.filterMap Statement.heading?).map String.toList).filter p := by
  induction ss with
  | nil =>
    have hempty : p [] = false := by
      rw [Bool.eq_false_iff]
      intro h
      exact not_layoutStart_of_head (by simp) (hp [] h)
    simp [Statement.code, Text.lines_nil, hempty]
  | cons s ss ih =>
    have hrest := ih fun s' hs' => hss s' (List.mem_cons_of_mem s hs')
    obtain ⟨others, hlines, hothers⟩ := lines_text (hss s (by simp)) (Statement.code ss).toList
    have hnone : others.filter p = [] := by
      rw [List.filter_eq_nil_iff]
      exact fun l hl h => hothers l hl (hp l h)
    rw [Statement.code, String.toList_append, hlines, List.filter_append, List.filter_append, hrest,
      hnone, List.append_nil, List.filterMap_cons]
    cases s.heading? with
    | none => simp
    | some l => rw [List.map_cons, ← List.singleton_append, List.filter_append]; rfl

/-- The lines of a code that start with a given text. -/
def linesStarting (start code : String) : List String :=
  ((Text.lines code.toList).filter start.toList.isPrefixOf).map String.ofList

theorem linesStarting_code {start : String} (hstart : layoutStart.toList <+: start.toList)
    {ss : List Statement} (hss : ∀ s ∈ ss, s.Spelled (· ≠ '\n')) :
    linesStarting start (Statement.code ss) =
      (ss.filterMap Statement.heading?).filter fun l => start.toList.isPrefixOf l.toList := by
  have hp : ∀ l, start.toList.isPrefixOf l = true → layoutStart.toList <+: l :=
    fun l hl => hstart.trans (List.isPrefixOf_iff_prefix.1 hl)
  rw [linesStarting, filter_lines_code hp hss, List.filter_map, List.map_map]
  simp [Function.comp_def]

/-! ## Addresses in headings -/

/-- The address that a line gives to a declaration. -/
def lineAddress? (line : String) : Option Address := do
  let afterStart ← Text.dropStart? layoutStart.toList line.toList
  let (set, afterSet) ← Text.numeral? afterStart
  let beforeBinding ← Text.dropStart? ", binding = ".toList afterSet
  let (binding, _) ← Text.numeral? beforeBinding
  return ⟨set, binding⟩

theorem toList_heading (address : Address) (ending : String) :
    (heading address ending).toList = layoutStart.toList ++ ((toString address.set).toList ++
      (", binding = ".toList ++ ((toString address.binding).toList ++ ending.toList))) := by
  simp only [heading, String.toList_append, List.append_assoc]

theorem lineAddress?_heading (address : Address) {ending : String}
    (h : ∀ c ∈ ending.toList.head?, c.isDigit = false) :
    lineAddress? (heading address ending) = some address := by
  have hcomma : ∀ c ∈ (", binding = ".toList ++
      ((toString address.binding).toList ++ ending.toList)).head?, c.isDigit = false := by
    simp
  rw [lineAddress?, toList_heading, Text.dropStart?_append]
  simp only [bind, Option.bind, Text.numeral?_toString _ hcomma, Text.dropStart?_append,
    Text.numeral?_toString _ h]
  rfl

/-- How lines start that bind something in a set. -/
def setStart (set : Nat) : String :=
  layoutStart ++ toString set ++ ","

theorem setStart_prefix_heading_iff {set : Nat} {address : Address} {ending : String} :
    (setStart set).toList <+: (heading address ending).toList ↔ address.set = set := by
  constructor
  · rintro ⟨t, ht⟩
    have hset : (toString set).toList ++ (",".toList ++ t) = (toString address.set).toList ++
        (", binding = ".toList ++ ((toString address.binding).toList ++ ending.toList)) := by
      rw [toList_heading] at ht
      simpa [setStart] using ht
    have hleft := Text.numeral?_toString set (t := ",".toList ++ t) (by simp)
    have hright := Text.numeral?_toString address.set (t := ", binding = ".toList ++
      ((toString address.binding).toList ++ ending.toList)) (by simp)
    rw [hset, hright] at hleft
    exact (Prod.mk.inj (Option.some.inj hleft)).1
  · rintro rfl
    refine ⟨" binding = ".toList ++ ((toString address.binding).toList ++ ending.toList), ?_⟩
    rw [toList_heading]
    simp [setStart]

namespace Statement

/-- Whether a statement binds something in a set. -/
def bindsIn (set : Nat) (s : Statement) : Bool :=
  s.address?.any fun address => address.set == set

theorem heading?_eq_some {s : Statement} {line : String} (h : s.heading? = some line) :
    ∃ address ending, s.address? = some address ∧ line = heading address ending ∧
      ∀ c ∈ ending.toList.head?, c.isDigit = false := by
  cases s with
  | block address members => exact ⟨address, _, rfl, (Option.some.inj h).symm, by simp⟩
  | resource address type name => exact ⟨address, _, rfl, (Option.some.inj h).symm, by simp⟩
  | _ => cases h

theorem heading?_eq_none_iff {s : Statement} : s.heading? = none ↔ s.address? = none := by
  cases s <;> simp [heading?, address?]

theorem map_lineAddress?_headings (ss : List Statement) :
    (ss.filterMap heading?).map lineAddress? = (ss.filterMap address?).map some := by
  rw [List.map_filterMap, List.map_filterMap]
  refine List.filterMap_congr fun s _ => ?_
  cases hs : s.heading? with
  | none =>
    rw [heading?_eq_none_iff.1 hs]
    rfl
  | some line =>
    obtain ⟨address, ending, haddress, rfl, hending⟩ := heading?_eq_some hs
    simp [haddress, lineAddress?_heading address hending]

end Statement

/-- The lines that bind something in a set belong to the statements that do so, in order. -/
theorem linesStarting_setStart {ss : List Statement} (hss : ∀ s ∈ ss, s.Spelled (· ≠ '\n'))
    (set : Nat) :
    linesStarting (setStart set) (Statement.code ss) =
      (ss.filter (Statement.bindsIn set)).filterMap Statement.heading? := by
  have hstart : layoutStart.toList <+: (setStart set).toList :=
    ⟨(toString set).toList ++ ",".toList, by simp [setStart]⟩
  rw [linesStarting_code hstart hss, List.filter_filterMap, List.filterMap_filter]
  refine List.filterMap_congr fun s _ => ?_
  cases hs : s.heading? with
  | none => simp
  | some line =>
    obtain ⟨address, ending, haddress, rfl, -⟩ := Statement.heading?_eq_some hs
    have hset : (setStart set).toList <+: (heading address ending).toList ↔ address.set = set :=
      setStart_prefix_heading_iff
    by_cases h : address.set = set
    · simp [Statement.bindsIn, haddress, h, Option.filter, List.isPrefixOf_iff_prefix.2 (hset.2 h)]
    · have hnot : (setStart set).toList.isPrefixOf (heading address ending).toList = false := by
        rw [Bool.eq_false_iff]
        exact fun hp => h (hset.1 (List.isPrefixOf_iff_prefix.1 hp))
      simp [Statement.bindsIn, haddress, h, Option.filter, hnot]

end GlslLayout
