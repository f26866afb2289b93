import Mathlib.Data.List.Induction
import Mathlib.Data.List.Nodup

/-!
Lists that are read from front to back, each entry behind the earlier ones.

* `flatMapEarlier`: what the entries contribute, each in the light of those in front of it;
  `flatMapEarlier_concat` is one step of reading.
* `eraseDups_concat`, `eraseDups_append_of_subset`: each entry once, where it first stands.
-/

namespace GlslLayout

set_option autoImplicit false

variable {α β : Type}

/-- Joins what `f` makes of each entry and the entries in front of it. -/
def flatMapEarlier (f : List α → α → List β) (l : List α) : List β :=
  l.zipIdx.flatMap fun entry => f (l.take entry.2) entry.1

theorem flatMapEarlier_concat (f : List α → α → List β) (l : List α) (a : α) :
    flatMapEarlier f (l ++ [a]) = flatMapEarlier f l ++ f l a := by
  have hfront : (l.zipIdx.flatMap fun entry => f ((l ++ [a]).take entry.2) entry.1) =
      flatMapEarlier f l := by
    -- the new entry does not stand in front of any earlier one
    refine List.flatMap_congr fun entry hentry => ?_
    have hindex := List.snd_lt_of_mem_zipIdx hentry
    rw [List.take_append_of_le_length (by omega)]
  rw [flatMapEarlier, List.zipIdx_append, List.flatMap_append, hfront]
  simp

theorem mem_flatMapEarlier {f : List α → α → List β} {l : List α} {b : β} :
    b ∈ flatMapEarlier f l ↔ ∃ a i, l[i]? = some a ∧ b ∈ f (l.take i) a := by
  simp only [flatMapEarlier, List.mem_flatMap, Prod.exists, List.mem_zipIdx_iff_getElem?]

theorem map_flatMapEarlier {γ : Type} (g : β → γ) (f : List α → α → List β) (l : List α) :
    (flatMapEarlier f l).map g = flatMapEarlier (fun earlier a => (f earlier a).map g) l :=
  List.map_flatMap

section Distinct

variable [DecidableEq α]

theorem eraseDups_concat (l : List α) (a : α) :
    (l ++ [a]).eraseDups = if a ∈ l then l.eraseDups else l.eraseDups ++ [a] := by
  rw [List.eraseDups_append, List.removeAll]
  by_cases h : a ∈ l
  · simp [h]
  · simp [h, List.eraseDups_cons]

theorem eraseDups_append_of_subset {l r : List α} (h : r ⊆ l) :
    (l ++ r).eraseDups = l.eraseDups := by
  have hnone : r.removeAll l = [] := by
    rw [List.removeAll, List.filter_eq_nil_iff]
    intro a ha
    simp [h ha]
  rw [List.eraseDups_append, hnone, List.eraseDups_nil, List.append_nil]

theorem eraseDups_eq_self {l : List α} (h : l.Nodup) : l.eraseDups = l := by
  induction l using List.reverseRecOn with
  | nil => rfl
  | append_singleton l a ih =>
    obtain ⟨hl, -, hapart⟩ := List.nodup_append.1 h
    have ha : a ∉ l := fun hmem => hapart a hmem a (by simp) rfl
    rw [eraseDups_concat, if_neg ha, ih hl]

end Distinct

end GlslLayout
