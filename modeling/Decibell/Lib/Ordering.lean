import Mathlib.Data.List.Sort

/-!
# Listings in an order that is antisymmetric on the list

Rows kept in no particular order are listed by sorting them. A list that is already
sorted and has the same rows is that listing (`insertionSort_eq_of_perm`), so to know
the listing after a change it is enough to give it. Where a row comes several times,
`firstOfRuns` keeps one of each.
-/

namespace Lib

open List

variable {α : Type} {r : α → α → Prop} [DecidableRel r]

/-- The listing of rows is the sorted list that has them. -/
theorem insertionSort_eq_of_perm [Std.Total r] [IsTrans α r] {l l' : List α} (hp : l.Perm l')
    (hs : l'.Pairwise r) (ha : ∀ a ∈ l, ∀ b ∈ l, r a b → r b a → a = b) :
    l.insertionSort r = l' := by
  refine List.Perm.eq_of_pairwise (fun a b ha' hb' => ha a ?_ b ?_) (pairwise_insertionSort r l)
    hs ((perm_insertionSort r l).trans hp)
  · exact (mem_insertionSort r).1 ha'
  · exact hp.mem_iff.2 hb'

/-- The listing of some of the rows is that part of the listing. -/
theorem insertionSort_filter [Std.Total r] [IsTrans α r] [Std.Antisymm r] (p : α → Bool)
    (l : List α) : (l.filter p).insertionSort r = (l.insertionSort r).filter p :=
  insertionSort_eq_of_perm ((perm_insertionSort r l).filter p).symm
    ((pairwise_insertionSort r l).filter p) fun _ _ _ _ hab hba => Std.Antisymm.antisymm _ _ hab hba

/-- The listing the other way is the listing, backwards. -/
theorem insertionSort_swap [Std.Total r] [IsTrans α r] [Std.Antisymm r] (l : List α) :
    l.insertionSort (fun a b => r b a) = (l.insertionSort r).reverse := by
  have htotal : Std.Total fun a b => r b a := ⟨fun a b => Std.Total.total b a⟩
  have htrans : IsTrans α fun a b => r b a := ⟨fun a b c hab hbc => IsTrans.trans c b a hbc hab⟩
  refine insertionSort_eq_of_perm ?_ ?_ fun _ _ _ _ hab hba => Std.Antisymm.antisymm _ _ hba hab
  · exact ((perm_insertionSort r l).symm).trans (reverse_perm _).symm
  · exact pairwise_reverse.2 (pairwise_insertionSort r l)

/-! ## Rows in runs -/

/-- The first of each run of equal rows, after a row. -/
def firstOfRuns [DecidableEq α] : α → List α → List α
  | _, [] => []
  | last, x :: xs => if x = last then firstOfRuns last xs else x :: firstOfRuns x xs

section Runs

variable [DecidableEq α] [Std.Antisymm r]

omit [DecidableRel r] in
/-- In a sorted list, a row does not come again after its run. -/
theorem mem_firstOfRuns {last : α} {l : List α} (hl : l.Pairwise r)
    (hlast : last ∉ l ∨ ∀ x ∈ l, r last x) {x : α} :
    x ∈ firstOfRuns last l ↔ x ∈ l ∧ x ≠ last := by
  induction l generalizing last with
  | nil => simp [firstOfRuns]
  | cons y l ih =>
    rw [pairwise_cons] at hl
    rw [firstOfRuns]
    split
    · rename_i hy
      subst hy
      rw [ih hl.2 (.inr hl.1), mem_cons]
      constructor
      · exact fun ⟨hx, hne⟩ => ⟨.inr hx, hne⟩
      · exact fun ⟨hx, hne⟩ => ⟨hx.resolve_left hne, hne⟩
    · rename_i hy
      rw [mem_cons, ih hl.2 (.inr hl.1), mem_cons]
      constructor
      · rintro (rfl | ⟨hx, -⟩)
        · exact ⟨.inl rfl, hy⟩
        · refine ⟨.inr hx, ?_⟩
          rintro rfl
          rcases hlast with hnot | hle
          · exact hnot (mem_cons_of_mem y hx)
          · exact hy (Std.Antisymm.antisymm (r := r) _ _ (hl.1 x hx) (hle y (.head l)))
      · rintro ⟨rfl | hx, -⟩
        · exact .inl rfl
        · by_cases hxy : x = y
          · exact .inl hxy
          · exact .inr ⟨hx, hxy⟩

omit [DecidableRel r] in
theorem pairwise_firstOfRuns {last : α} {l : List α} (hl : l.Pairwise r)
    (hlast : last ∉ l ∨ ∀ x ∈ l, r last x) :
    (firstOfRuns last l).Pairwise fun x y => r x y ∧ x ≠ y := by
  induction l generalizing last with
  | nil => exact .nil
  | cons y l ih =>
    rw [pairwise_cons] at hl
    rw [firstOfRuns]
    split
    · rename_i hy
      subst hy
      exact ih hl.2 (.inr hl.1)
    · refine pairwise_cons.2 ⟨fun x hx => ?_, ih hl.2 (.inr hl.1)⟩
      obtain ⟨hmem, hne⟩ := (mem_firstOfRuns hl.2 (.inr hl.1)).1 hx
      exact ⟨hl.1 x hmem, hne.symm⟩

/-- A listing with each row once, whatever the rows it was made of. -/
theorem firstOfRuns_insertionSort [Std.Total r] [IsTrans α r] {last : α} {l l' : List α}
    (hlast : last ∉ l) (hmem : ∀ x, x ∈ l ↔ x ∈ l') (hl' : l'.Pairwise fun x y => r x y ∧ x ≠ y) :
    firstOfRuns last (l.insertionSort r) = l' := by
  have hsorted := pairwise_insertionSort r l
  have hnot : last ∉ l.insertionSort r := mt (mem_insertionSort r).1 hlast
  have hruns := pairwise_firstOfRuns hsorted (.inl hnot)
  have hperm : (firstOfRuns last (l.insertionSort r)).Perm l' := by
    refine (perm_ext_iff_of_nodup (hruns.imp And.right) (hl'.imp And.right)).2 fun x => ?_
    rw [mem_firstOfRuns hsorted (.inl hnot), mem_insertionSort, ← hmem]
    exact ⟨And.left, fun hx => ⟨hx, fun heq => hlast (heq ▸ hx)⟩⟩
  refine List.Perm.eq_of_pairwise (fun a b _ _ hab hba => ?_) (hruns.imp And.left)
    (hl'.imp And.left) hperm
  exact Std.Antisymm.antisymm (r := r) _ _ hab hba

end Runs

end Lib
