import GlslLayout.Proofs.Provision
import Mathlib.Data.List.Induction

/-!
A host that is set up step by step holds the last write under every key.

* `lastAt`, `Standing`: the last value under a key, and a value that nothing overwrites.
* `SetTable.ofWrites`: a table by sets after writes; `SetTable.holdsLast_ofWrites` says what it
  holds.
* `Host.Write`, `Host.ofWrites`: a host after blocks, bind groups and vertex elements in any order.
* `Host.ofWrites_holdsLast`: what such a host holds, and that nothing else about the writes matters.
-/

namespace GlslLayout

set_option autoImplicit false

/-! ## Last writes -/

section LastWrites

variable {κ α : Type} [DecidableEq κ]

/-- The last value that was written under a key. -/
def lastAt (ws : List (κ × α)) (key : κ) : Option α :=
  (ws.filter fun w => w.1 = key).getLast?.map Prod.snd

/-- The value was written under the key, and no later write has that key. -/
def Standing (ws : List (κ × α)) (key : κ) (a : α) : Prop :=
  ∃ before after, ws = before ++ (key, a) :: after ∧ ∀ w ∈ after, w.1 ≠ key

theorem lastAt_concat (ws : List (κ × α)) (w : κ × α) (key : κ) :
    lastAt (ws ++ [w]) key = if w.1 = key then some w.2 else lastAt ws key := by
  by_cases h : w.1 = key
  · simp [lastAt, h]
  · simp [lastAt, h]

theorem standing_concat {ws : List (κ × α)} {w : κ × α} {key : κ} {a : α} :
    Standing (ws ++ [w]) key a ↔ if w.1 = key then w.2 = a else Standing ws key a := by
  constructor
  · rintro ⟨before, after, hsplit, hlater⟩
    rcases List.eq_nil_or_concat' after with rfl | ⟨init, last, rfl⟩
    · obtain ⟨-, hw⟩ := List.append_inj' hsplit rfl
      obtain rfl := List.singleton_inj.1 hw
      rw [if_pos rfl]
    · rw [← List.cons_append, ← List.append_assoc] at hsplit
      obtain ⟨rfl, hw⟩ := List.append_inj' hsplit rfl
      obtain rfl := List.singleton_inj.1 hw
      rw [if_neg (hlater w (by simp))]
      exact ⟨before, init, rfl, fun v hv => hlater v (List.mem_append_left _ hv)⟩
  · intro h
    by_cases hkey : w.1 = key
    · rw [if_pos hkey] at h
      exact ⟨ws, [], by rw [← hkey, ← h], by simp⟩
    · rw [if_neg hkey] at h
      obtain ⟨before, after, rfl, hlater⟩ := h
      refine ⟨before, after ++ [w], by simp, fun v hv => ?_⟩
      rcases List.mem_append.1 hv with hv | hv
      · exact hlater v hv
      · rw [List.mem_singleton.1 hv]
        exact hkey

theorem lastAt_eq_some_iff {ws : List (κ × α)} {key : κ} {a : α} :
    lastAt ws key = some a ↔ Standing ws key a := by
  induction ws using List.reverseRecOn with
  | nil =>
    have hnone : ¬ Standing ([] : List (κ × α)) key a := by
      rintro ⟨before, after, hsplit, -⟩
      simp at hsplit
    simp [lastAt, hnone]
  | append_singleton ws w ih =>
    rw [lastAt_concat, standing_concat]
    by_cases h : w.1 = key
    · simp [h]
    · simp [h, ih]

theorem exists_lastAt_iff {ws : List (κ × α)} {key : κ} :
    (∃ a, lastAt ws key = some a) ↔ ∃ w ∈ ws, w.1 = key := by
  induction ws using List.reverseRecOn with
  | nil => simp [lastAt]
  | append_singleton ws w ih =>
    rw [lastAt_concat]
    by_cases h : w.1 = key
    · simp [h]
    · simp [h, ih]

end LastWrites

/-! ## Tables by sets -/

namespace SetTable

variable {α : Type}

theorem length_put (t : SetTable α) (set : Nat) (a : α) :
    (put t set a).length = max t.length (set + 1) := by
  simp only [put, List.length_set, List.length_append, List.length_replicate]
  omega

theorem get?_put (t : SetTable α) (set : Nat) (a : α) (i : Nat) :
    get? (put t set a) i = if i = set then some a else get? t i := by
  have hlength : set < (t ++ List.replicate (set + 1 - t.length) none).length := by
    simp only [List.length_append, List.length_replicate]
    omega
  by_cases hi : i = set
  · subst hi
    rw [if_pos rfl, get?, put, List.getElem?_set_self hlength]
    rfl
  · rw [if_neg hi, get?, put, List.getElem?_set_ne (Ne.symm hi), List.getElem?_append]
    split
    · rfl
    · -- the gap up to the new entry is as empty as the table was behind its end
      next hout =>
      rw [List.getElem?_replicate, get?, List.getElem?_eq_none (by omega)]
      split <;> rfl

/-- A table after writes. -/
def ofWrites (ws : List (Nat × α)) : SetTable α :=
  ws.foldl (fun t w => put t w.1 w.2) []

theorem ofWrites_concat (ws : List (Nat × α)) (w : Nat × α) :
    ofWrites (ws ++ [w]) = put (ofWrites ws) w.1 w.2 := by
  simp only [ofWrites, List.foldl_append, List.foldl_cons, List.foldl_nil]

theorem get?_ofWrites (ws : List (Nat × α)) (set : Nat) :
    get? (ofWrites ws) set = lastAt ws set := by
  induction ws using List.reverseRecOn with
  | nil => rfl
  | append_singleton ws w ih =>
    rw [ofWrites_concat, get?_put, lastAt_concat, ih]
    simp only [eq_comm]

theorem lt_length_ofWrites_iff (ws : List (Nat × α)) (n : Nat) :
    n < (ofWrites ws).length ↔ ∃ w ∈ ws, n ≤ w.1 := by
  induction ws using List.reverseRecOn with
  | nil => simp [ofWrites]
  | append_singleton ws w ih =>
    have hgrows : n < max (ofWrites ws).length (w.1 + 1) ↔
        n < (ofWrites ws).length ∨ n ≤ w.1 := by omega
    rw [ofWrites_concat, length_put, hgrows, ih]
    simp only [List.mem_append, List.mem_singleton, or_and_right, exists_or, exists_eq_left]

/-- The table reaches to the largest set that was written, and holds in every set up to there what
was written last. -/
structure HoldsLast (ws : List (Nat × α)) (t : SetTable α) : Prop where
  length : t.length = ((ws.map Prod.fst).max?.map (· + 1)).getD 0
  slots : ∀ set < t.length, t[set]? = some (lastAt ws set)

theorem holdsLast_ofWrites (ws : List (Nat × α)) : HoldsLast ws (ofWrites ws) where
  length := by
    cases hmax : (ws.map Prod.fst).max? with
    | none =>
      have hnil : ws = [] := by simpa using hmax
      rw [hnil]
      rfl
    | some top =>
      obtain ⟨hmem, hle⟩ := List.max?_eq_some_iff.1 hmax
      obtain ⟨w, hw, rfl⟩ := List.mem_map.1 hmem
      have hin : w.1 < (ofWrites ws).length := (lt_length_ofWrites_iff ws w.1).2 ⟨w, hw, le_refl _⟩
      have hout : ¬ w.1 + 1 < (ofWrites ws).length := by
        rw [lt_length_ofWrites_iff]
        rintro ⟨v, hv, hlt⟩
        have := hle v.1 (List.mem_map_of_mem hv)
        omega
      simp only [Option.map_some, Option.getD_some]
      omega
  slots := by
    intro set hset
    have hentry := get?_ofWrites ws set
    rw [get?, List.getElem?_eq_getElem hset, Option.join_some] at hentry
    rw [List.getElem?_eq_getElem hset, hentry]

/-- Only the last write in each set matters. -/
theorem ofWrites_congr {ws ws' : List (Nat × α)} (h : ∀ set, lastAt ws set = lastAt ws' set) :
    ofWrites ws = ofWrites ws' := by
  have hlength : (ofWrites ws).length = (ofWrites ws').length := by
    have hlt : ∀ n, n < (ofWrites ws).length ↔ n < (ofWrites ws').length := by
      intro n
      have hsets : ∀ set, (∃ w ∈ ws, w.1 = set) ↔ ∃ w ∈ ws', w.1 = set := by
        intro set
        rw [← exists_lastAt_iff, ← exists_lastAt_iff, h set]
      rw [lt_length_ofWrites_iff, lt_length_ofWrites_iff]
      constructor
      · rintro ⟨w, hw, hn⟩
        obtain ⟨v, hv, hset⟩ := (hsets w.1).1 ⟨w, hw, rfl⟩
        exact ⟨v, hv, by omega⟩
      · rintro ⟨w, hw, hn⟩
        obtain ⟨v, hv, hset⟩ := (hsets w.1).2 ⟨w, hw, rfl⟩
        exact ⟨v, hv, by omega⟩
    have hfirst := hlt (ofWrites ws').length
    have hsecond := hlt (ofWrites ws).length
    omega
  refine List.ext_getElem? fun set => ?_
  by_cases hset : set < (ofWrites ws).length
  · rw [(holdsLast_ofWrites ws).slots set hset, (holdsLast_ofWrites ws').slots set (hlength ▸ hset),
      h set]
  · rw [List.getElem?_eq_none (by omega), List.getElem?_eq_none (by omega)]

end SetTable

/-! ## Hosts -/

namespace Host

/-- One step of setting a host up. -/
inductive Write where
  | block (set : Nat) (layout : BlockLayout)
  | group (set : Nat) (group : BindGroup)
  | element (semantic : Semantic) (format : ElementFormat)
  deriving DecidableEq, Repr

def write (h : Host) : Write → Host
  | .block set layout => h.withBlock set layout
  | .group set group => h.withGroup set group
  | .element semantic format => h.withElement semantic format

/-- The host after writes in order. -/
def ofWrites (ws : List Write) : Host :=
  ws.foldl write {}

/-- The blocks that are written, with their sets. -/
def blockWrites (ws : List Write) : List (Nat × BlockLayout) :=
  ws.filterMap fun
    | .block set layout => some (set, layout)
    | _ => none

/-- The bind groups that are written, with their sets. -/
def groupWrites (ws : List Write) : List (Nat × BindGroup) :=
  ws.filterMap fun
    | .group set group => some (set, group)
    | _ => none

/-- The vertex elements that are written, with their semantics. -/
def elementWrites (ws : List Write) : List (Semantic × ElementFormat) :=
  ws.filterMap fun
    | .element semantic format => some (semantic, format)
    | _ => none

/-- The three kinds of writes do not touch each other. -/
theorem ofWrites_eq (ws : List Write) :
    ofWrites ws =
      ⟨.ofWrites (blockWrites ws), .ofWrites (groupWrites ws), lastAt (elementWrites ws)⟩ := by
  induction ws using List.reverseRecOn with
  | nil => rfl
  | append_singleton ws w ih =>
    have hlast : ofWrites (ws ++ [w]) = (ofWrites ws).write w := by
      simp only [ofWrites, List.foldl_append, List.foldl_cons, List.foldl_nil]
    rw [hlast, ih]
    cases w with
    | block set layout =>
      simp [write, withBlock, blockWrites, groupWrites, elementWrites, SetTable.ofWrites_concat]
    | group set group =>
      simp [write, withGroup, blockWrites, groupWrites, elementWrites, SetTable.ofWrites_concat]
    | element semantic format =>
      have helement : elementWrites (ws ++ [.element semantic format]) =
          elementWrites ws ++ [(semantic, format)] := by simp [elementWrites]
      simp only [write, withElement, helement, blockWrites, groupWrites, List.filterMap_append,
        List.filterMap_cons, List.filterMap_nil, List.append_nil, Host.mk.injEq, true_and]
      funext s
      rw [lastAt_concat]
      simp only [eq_comm]

/-- A host holds, under every key of every kind, what was written there last. -/
structure HoldsLast (ws : List Write) (h : Host) : Prop where
  blocks : SetTable.HoldsLast (blockWrites ws) h.blocks
  groups : SetTable.HoldsLast (groupWrites ws) h.groups
  elements : ∀ semantic, h.elements semantic = lastAt (elementWrites ws) semantic
  /-- It provides the values of the blocks that were not overwritten. -/
  values : ∀ name, h.providesValue name = true ↔
    ∃ set layout, Standing (blockWrites ws) set layout ∧ ∃ m ∈ layout.members, m.name = name
  textures : ∀ name, h.providesTexture name = true ↔
    ∃ set group, Standing (groupWrites ws) set group ∧ ∃ t ∈ group.textures, t.name = name

/-- Under every key of every kind the same was written last. -/
structure SameLast (ws ws' : List Write) : Prop where
  blocks : ∀ set, lastAt (blockWrites ws) set = lastAt (blockWrites ws') set
  groups : ∀ set, lastAt (groupWrites ws) set = lastAt (groupWrites ws') set
  elements : ∀ semantic, lastAt (elementWrites ws) semantic = lastAt (elementWrites ws') semantic

theorem SameLast.ofWrites_eq {ws ws' : List Write} (h : SameLast ws ws') :
    ofWrites ws = ofWrites ws' := by
  rw [Host.ofWrites_eq, Host.ofWrites_eq, SetTable.ofWrites_congr h.blocks,
    SetTable.ofWrites_congr h.groups, funext h.elements]

/-- A host that is set up in any order holds the last writes. So two orders that end alike under
every key give the same host, and every shader is bound alike. -/
theorem ofWrites_holdsLast (ws : List Write) :
    HoldsLast ws (ofWrites ws) ∧
    ∀ ws', SameLast ws ws' → ofWrites ws = ofWrites ws' ∧
      ∀ (policy : Policy) (shader : Shader),
        shader.bind policy (ofWrites ws) = shader.bind policy (ofWrites ws') := by
  constructor
  · rw [Host.ofWrites_eq]
    constructor
    case blocks => exact SetTable.holdsLast_ofWrites _
    case groups => exact SetTable.holdsLast_ofWrites _
    case elements => exact fun semantic => rfl
    case values =>
      intro name
      simp only [providesValue_iff, HasMember, SetTable.get?_ofWrites, lastAt_eq_some_iff]
    case textures =>
      intro name
      simp only [providesTexture_iff, HasTexture, SetTable.get?_ofWrites, lastAt_eq_some_iff]
  · intro ws' hsame
    refine ⟨hsame.ofWrites_eq, fun policy shader => ?_⟩
    rw [hsame.ofWrites_eq]

/-- A block of one value. -/
def oneValue (name : String) : BlockLayout :=
  ⟨[⟨⟨name, .vector .float .four, .single⟩, 0⟩], 16⟩

/-- Writes to three sets, with the block of the last set and the color element overwritten. -/
def mixedWrites : List Write :=
  [.block 3 (oneValue "fog"), .element .color ⟨.unsigned .bits8, true, false⟩, .group 1 ⟨[], []⟩,
    .block 1 (oneValue "sun"), .block 3 (oneValue "sky"), .element .color ⟨.float32, false, false⟩]

/-- The same writes in another order and without those that are overwritten. -/
def shortWrites : List Write :=
  [.element .color ⟨.float32, false, false⟩, .block 1 (oneValue "sun"), .block 3 (oneValue "sky"),
    .group 1 ⟨[], []⟩]

theorem ofWrites_holdsLast_mixedWrites :
    SameLast mixedWrites shortWrites ∧ ofWrites mixedWrites = ofWrites shortWrites ∧
    (ofWrites mixedWrites).blocks = [none, some (oneValue "sun"), none, some (oneValue "sky")] ∧
    (ofWrites mixedWrites).providesValue "sky" = true ∧
    (ofWrites mixedWrites).providesValue "fog" = false ∧
    HoldsLast mixedWrites (ofWrites mixedWrites) := by
  have hsame : SameLast mixedWrites shortWrites := by
    refine ⟨fun set => ?_, fun set => rfl, fun semantic => ?_⟩
    · by_cases hone : 1 = set
      · subst hone
        decide
      · by_cases hthree : 3 = set
        · subst hthree
          decide
        · simp [mixedWrites, shortWrites, blockWrites, lastAt, hone, hthree]
    · by_cases hcolor : Semantic.color = semantic
      · subst hcolor
        decide
      · simp [mixedWrites, shortWrites, elementWrites, lastAt, hcolor]
  exact ⟨hsame, ((ofWrites_holdsLast mixedWrites).2 _ hsame).1, rfl, by decide, by decide,
    (ofWrites_holdsLast mixedWrites).1⟩

end Host

end GlslLayout
