import Mathlib.Data.List.Basic
import Mathlib.Tactic.Common

/-!
# Lists with headings

Some of a list's elements are headings, and the others are `items` under the nearest heading above
them. `prune` leaves out the elements that are not kept, but not a heading that an item which is
kept is under: the items that are left are under the headings they were under.
-/

namespace Lib

open List

variable {α : Type} (heading keep : α → Bool)

/-- The elements other than headings, under the nearest heading above. -/
def items : Option α → List α → List (α × Option α)
  | _, [] => []
  | above, a :: l => if heading a then items (some a) l else (a, above) :: items above l

/-- A pruned list; `pending` is a heading above, kept only with an item. -/
def prune : Option α → List α → List α
  | _, [] => []
  | pending, a :: l =>
    if heading a then if keep a then a :: prune none l else prune (some a) l
    else if keep a then pending.toList ++ a :: prune none l
    else prune pending l

variable {heading keep} {above above' pending : Option α} {a k : α} {l : List α}

theorem items_cons (above : Option α) (a : α) (l : List α) : items heading above (a :: l) =
    if heading a then items heading (some a) l else (a, above) :: items heading above l := rfl

theorem prune_cons (pending : Option α) (a : α) (l : List α) : prune heading keep pending (a :: l) =
    if heading a then
      if keep a then a :: prune heading keep none l else prune heading keep (some a) l
    else if keep a then pending.toList ++ a :: prune heading keep none l
    else prune heading keep pending l := rfl

theorem map_fst_items (above : Option α) (l : List α) :
    (items heading above l).map Prod.fst = l.filter (! heading ·) := by
  induction l generalizing above with
  | nil => rfl
  | cons a l ih =>
    rw [items_cons]
    cases h : heading a with
    | true => simp [ih, h]
    | false => simp [ih, h]

theorem mem_of_mem_items {above k : Option α} (h : (a, k) ∈ items heading above l) :
    a ∈ l ∧ heading a = false := by
  have hmem : a ∈ (items heading above l).map Prod.fst := mem_map_of_mem h
  rw [map_fst_items] at hmem
  exact (mem_filter.1 hmem).imp id fun h => by simpa using h

theorem prune_sublist (pending : Option α) (l : List α) :
    (prune heading keep pending l).Sublist (pending.toList ++ l) := by
  induction l generalizing pending with
  | nil => exact nil_sublist _
  | cons a l ih =>
    have hbelow : (prune heading keep none l).Sublist l := ih none
    rw [prune_cons]
    split
    · refine List.Sublist.trans ?_ (sublist_append_right _ _)
      split
      · exact hbelow.cons_cons a
      · exact ih (some a)
    · split
      · exact (List.Sublist.refl _).append (hbelow.cons_cons a)
      · exact (ih pending).trans ((List.Sublist.refl _).append (sublist_cons_self a l))

theorem mem_prune_of_keep (ha : a ∈ l) (hk : keep a = true) : a ∈ prune heading keep pending l := by
  induction l generalizing pending with
  | nil => cases ha
  | cons b l ih =>
    rw [prune_cons]
    rcases mem_cons.1 ha with rfl | ha
    · simp only [hk, if_true]
      split
      · exact .head _
      · exact mem_append_right _ (.head _)
    · split
      · split
        · exact .tail _ (ih ha)
        · exact ih ha
      · split
        · exact mem_append_right _ (.tail _ (ih ha))
        · exact ih ha

/-- The items left are those kept, under their headings. -/
theorem items_prune (h : pending = none ∧ above' = above ∨
      ∃ k, heading k = true ∧ pending = some k ∧ above = some k) :
    items heading above' (prune heading keep pending l) =
      (items heading above l).filter fun e => keep e.1 := by
  induction l generalizing pending above above' with
  | nil => rfl
  | cons a l ih =>
    rw [prune_cons, items_cons]
    cases ha : heading a with
    | true =>
      simp only [if_true]
      cases hk : keep a with
      | true =>
        rw [if_pos rfl, items_cons, ha, if_pos rfl]
        exact ih (.inl ⟨rfl, rfl⟩)
      | false => exact ih (.inr ⟨a, ha, rfl, rfl⟩)
    | false =>
      simp only [Bool.false_eq_true, if_false, filter_cons]
      cases hk : keep a with
      | false => exact ih h
      | true =>
        simp only [if_true]
        -- a pending heading comes right before the item
        rcases h with ⟨rfl, rfl⟩ | ⟨k, hhk, rfl, rfl⟩
        · simp only [Option.toList_none, nil_append, items_cons, ha, Bool.false_eq_true, if_false]
          rw [ih (.inl ⟨rfl, rfl⟩)]
        · simp only [Option.toList_some, singleton_append, items_cons, hhk, ha, Bool.false_eq_true,
            if_true, if_false]
          rw [ih (.inl ⟨rfl, rfl⟩)]

theorem keep_of_mem_prune (ha : heading a = false) (h : a ∈ prune heading keep none l) :
    keep a = true := by
  have hmem : a ∈ (items heading none (prune heading keep none l)).map Prod.fst := by
    rw [map_fst_items]
    exact mem_filter.2 ⟨h, by simp [ha]⟩
  rw [items_prune (.inl ⟨rfl, rfl⟩)] at hmem
  obtain ⟨e, he, rfl⟩ := mem_map.1 hmem
  exact (mem_filter.1 he).2

theorem mem_items_of_ne (h : above ≠ some k) :
    (a, some k) ∈ items heading above l ↔ (a, some k) ∈ items heading none l := by
  induction l with
  | nil => rfl
  | cons b l ih =>
    rw [items_cons, items_cons]
    split
    · rfl
    · rw [mem_cons, mem_cons, ih]
      refine or_congr_left ⟨fun he => ?_, fun he => ?_⟩
      · exact absurd (congrArg Prod.snd he).symm h
      · cases congrArg Prod.snd he

/-- A heading not kept itself is left exactly if an item under it is. -/
theorem mem_prune_heading (hk : heading k = true) (hno : keep k = false) :
    k ∈ prune heading keep pending l ↔ ∃ a, (a, some k) ∈ items heading pending l ∧ keep a = true := by
  induction l generalizing pending with
  | nil => simp [prune, items]
  | cons b l ih =>
    rw [prune_cons, items_cons]
    cases hb : heading b with
    | true =>
      simp only [if_true]
      cases hkb : keep b with
      | false => exact ih
      | true =>
        have hne : k ≠ b := fun h => by
          rw [h, hkb] at hno
          cases hno
        rw [if_pos rfl, mem_cons, or_iff_right hne, ih]
        have hother : some b ≠ some k := fun h => hne (Option.some.inj h).symm
        simp only [mem_items_of_ne hother]
    | false =>
      have hne : k ≠ b := fun h => by
        rw [← h, hk] at hb
        cases hb
      simp only [Bool.false_eq_true, if_false, mem_cons, Prod.mk.injEq]
      cases hkb : keep b with
      | false =>
        rw [if_neg Bool.false_ne_true, ih]
        constructor
        · exact fun ⟨a, ha, hka⟩ => ⟨a, .inr ha, hka⟩
        · rintro ⟨a, ⟨rfl, -⟩ | ha, hka⟩
          · rw [hkb] at hka
            cases hka
          · exact ⟨a, ha, hka⟩
      | true =>
        rw [if_pos rfl, mem_append, mem_cons, or_iff_right hne, Option.mem_toList]
        by_cases hp : pending = some k
        · exact ⟨fun _ => ⟨b, .inl ⟨rfl, hp.symm⟩, hkb⟩, fun _ => .inl hp⟩
        · rw [or_iff_right hp, ih]
          simp only [mem_items_of_ne hp, eq_comm (a := some k), hp, and_false, false_or]

end Lib
