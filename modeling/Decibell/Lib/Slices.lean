import Mathlib.Data.List.Basic
import Mathlib.Tactic.Common

/-!
# Slices

Parts of a list between two positions, and what starts at a position, as a scanner over positions
reads its source.

* `slice xs start stop`: the elements from one position up to another. Two that meet are one
  (`slice_append_slice`), and a range of a range is a range (`slice_slice`).
-/

namespace Lib

open List

variable {α : Type*}

/-- The elements from one position up to, and without, another. -/
def slice (xs : List α) (start stop : Nat) : List α := (xs.drop start).take (stop - start)

variable {xs ys : List α} {start stop i : Nat}

theorem length_slice : (slice xs start stop).length = min stop xs.length - start := by
  rw [slice, length_take, length_drop]
  omega

theorem slice_eq_drop_take : slice xs start stop = (xs.take stop).drop start := by
  rw [slice, drop_take]

theorem slice_min_length : slice xs start (min stop xs.length) = slice xs start stop := by
  rw [slice_eq_drop_take, slice_eq_drop_take, take_eq_take_min, Nat.min_assoc, Nat.min_self,
    ← take_eq_take_min]

/-- A range of a range. -/
theorem slice_slice {a b : Nat} :
    slice (slice xs start stop) a b = slice xs (start + a) (min (start + b) stop) := by
  rw [slice, slice, slice, drop_take, take_take, drop_drop]
  congr 1
  omega

theorem slice_append_slice {mid : Nat} (h₁ : start ≤ mid) (h₂ : mid ≤ stop) :
    slice xs start mid ++ slice xs mid stop = slice xs start stop := by
  obtain ⟨k, rfl⟩ := Nat.exists_eq_add_of_le h₁
  obtain ⟨l, rfl⟩ := Nat.exists_eq_add_of_le h₂
  rw [slice, slice, slice, ← drop_drop, show start + k - start = k by omega,
    show start + k + l - (start + k) = l by omega, show start + k + l - start = k + l by omega,
    take_add]

theorem filter_window (xs : List α) (k start stop : Nat) :
    ((xs.zipIdx k).filter fun x => decide (start ≤ x.2 ∧ x.2 < stop)).map (·.1) =
      slice xs (start - k) (stop - k) := by
  induction xs generalizing k with
  | nil => rw [slice, drop_nil, take_nil]; rfl
  | cons x xs ih =>
    have hnext := ih (k + 1)
    rw [slice] at hnext
    rw [zipIdx_cons, filter_cons, slice]
    rcases Nat.lt_or_ge k start with hbefore | hfrom
    · -- The window starts later.
      rw [if_neg (by simp; omega), hnext, show start - k = start - (k + 1) + 1 by omega,
        drop_succ_cons]
      congr 1
      omega
    · rw [show start - (k + 1) = 0 by omega] at hnext
      rw [show start - k = 0 by omega]
      rcases Nat.lt_or_ge k stop with hin | hafter
      · rw [if_pos (by simp; omega), map_cons, hnext,
          show stop - k - 0 = stop - (k + 1) - 0 + 1 by omega]
        rfl
      · rw [if_neg (by simp; omega), hnext, show stop - k - 0 = 0 by omega,
          show stop - (k + 1) - 0 = 0 by omega]
        rfl

@[simp] theorem slice_self : slice xs start start = [] := by
  rw [slice, Nat.sub_self, take_zero]

@[simp] theorem slice_zero_length : slice xs 0 xs.length = xs := take_length

theorem length_slice_le : (slice xs start stop).length ≤ stop - start := length_take_le _ _

/-- One element. -/
theorem slice_succ {x : α} (h : xs[i]? = some x) : slice xs i (i + 1) = [x] := by
  obtain ⟨hlt, rfl⟩ := List.getElem?_eq_some_iff.1 h
  rw [slice, Nat.add_sub_cancel_left, drop_eq_getElem_cons hlt]
  rfl

/-- What is at the front of a slice is a slice. -/
theorem slice_of_isPrefix (h : ys <+: slice xs start stop) :
    slice xs start (start + ys.length) = ys := by
  rw [slice] at h ⊢
  rw [Nat.add_sub_cancel_left]
  exact (prefix_iff_eq_take.1 (h.trans ( take_prefix _ _))).symm

/-- What is before the first element of a kind, that element, the rest. -/
theorem takeWhile_ne_append [DecidableEq α] {x : α}
    (h : (xs.takeWhile (· ≠ x)).length < xs.length) :
    xs.takeWhile (· ≠ x) ++ [x] ++ xs.drop ((xs.takeWhile (· ≠ x)).length + 1) = xs := by
  induction xs with
  | nil => exact absurd h (Nat.lt_irrefl 0)
  | cons y xs ih =>
    by_cases hy : y = x
    · rw [takeWhile_cons_of_neg (by simpa using hy), hy]
      rfl
    · rw [takeWhile_cons_of_pos (by simpa using hy)] at h ⊢
      exact congrArg (y :: ·) (ih (Nat.lt_of_succ_lt_succ h))

section Search

variable [BEq α]

/-- The list `ys` stands at position `i`. -/
def startsAt (ys xs : List α) (i : Nat) : Bool := ys.isPrefixOf (xs.drop i)

theorem slice_of_startsAt [LawfulBEq α] (h : startsAt ys xs i = true) :
    slice xs i (i + ys.length) = ys := by
  rw [slice, Nat.add_sub_cancel_left]
  exact (prefix_iff_eq_take.1 (List.isPrefixOf_iff_prefix.1 h)).symm

theorem getElem?_of_startsAt_cons [LawfulBEq α] {x : α} (h : startsAt (x :: ys) xs i = true) :
    xs[i]? = some x := by
  obtain ⟨rest, hrest⟩ := isPrefixOf_iff_prefix.1 h
  rw [← head?_drop, ← hrest]
  rfl

end Search

/-- The first position from `start` up to `stop` with a property. -/
def position? (p : Nat → Bool) (start stop : Nat) : Option Nat :=
  (List.range' start (stop - start)).find? p

theorem position?_spec {p : Nat → Bool} (h : position? p start stop = some i) :
    start ≤ i ∧ i < stop ∧ p i = true := by
  have hmem := mem_range'_1.1 (mem_of_find?_eq_some h)
  have hp := find?_some h
  refine ⟨hmem.1, ?_, hp⟩
  have hlt := hmem.2
  omega

end Lib
