import Mathlib.Data.List.Perm.Subperm
import Mathlib.Data.List.Nodup
import Mathlib.Data.List.Range
import Mathlib.Tactic.Common

/-!
# Dense ranks

A list of ranks is `Dense` when they are 1, 2, … up to their number, in some order. They stay dense
when a new one is put below them all, when one is taken out and the gap closed, and when one is
moved to another place; a move keeps the order of the others.
-/

namespace Lib

open List

/-- The ranks are 1, 2, … up to their number, in some order. -/
def Dense (l : List Int) : Prop := l.Perm ((List.range l.length).map fun i : Nat => (i : Int) + 1)

variable {l : List Int} {old new p q : Int}

theorem dense_iff : Dense l ↔ l.Nodup ∧ ∀ p ∈ l, 1 ≤ p ∧ p ≤ l.length := by
  have hnodup : ((List.range l.length).map fun i : Nat => (i : Int) + 1).Nodup :=
    nodup_range.map fun i j (h : (i : Int) + 1 = j + 1) => by omega
  constructor
  · intro h
    refine ⟨h.nodup_iff.2 hnodup, fun p hp => ?_⟩
    obtain ⟨i, hi, rfl⟩ := mem_map.1 (h.subset hp)
    have := mem_range.1 hi
    omega
  · rintro ⟨hn, hp⟩
    refine (subperm_of_subset hn fun p hm => ?_).perm_of_length_le (by simp)
    obtain ⟨hlow, hhigh⟩ := hp p hm
    refine mem_map.2 ⟨(p - 1).toNat, mem_range.2 ?_, ?_⟩
    · omega
    · omega

instance (l : List Int) : Decidable (Dense l) := inferInstanceAs (Decidable (l.Perm _))

theorem Dense.nodup (h : Dense l) : l.Nodup := (dense_iff.1 h).1

theorem Dense.bounds (h : Dense l) (hp : p ∈ l) : 1 ≤ p ∧ p ≤ l.length := (dense_iff.1 h).2 p hp

/-- Every rank from 1 up to their number is there. -/
theorem Dense.mem (h : Dense l) (h₁ : 1 ≤ p) (h₂ : p ≤ l.length) : p ∈ l := by
  refine h.symm.subset (mem_map.2 ⟨(p - 1).toNat, mem_range.2 ?_, ?_⟩)
  · omega
  · omega

/-- A new rank below the others. -/
theorem Dense.below (h : Dense l) : Dense (l.map (· + 1) ++ [1]) := by
  obtain ⟨hn, hb⟩ := dense_iff.1 h
  refine dense_iff.2 ⟨?_, fun p hp => ?_⟩
  · refine (hn.map fun a b h => by simpa using h).append (nodup_singleton 1) ?_
    intro p hp hp'
    obtain ⟨q, hq, rfl⟩ := mem_map.1 hp
    have := hb q hq
    have := mem_singleton.1 hp'
    omega
  · rw [length_append, length_map, length_singleton]
    rcases mem_append.1 hp with hp | hp
    · obtain ⟨q, hq, rfl⟩ := mem_map.1 hp
      have := hb q hq
      omega
    · have := mem_singleton.1 hp
      omega

/-- The rank `p` once `old` is taken out. -/
def close (old p : Int) : Int := if old < p then p - 1 else p

theorem Dense.close (h : Dense l) (hold : old ∈ l) :
    Dense ((l.filter (· ≠ old)).map (close old)) := by
  obtain ⟨hn, hb⟩ := dense_iff.1 h
  have hlen : (l.filter (· ≠ old)).length + 1 = l.length := by
    have hfilter : l.filter (· ≠ old) = l.erase old := by
      rw [hn.erase_eq_filter]
      exact filter_congr fun p _ => by by_cases hp : p = old <;> simp [hp]
    rw [hfilter, length_erase_of_mem hold]
    have := length_pos_of_mem hold
    omega
  refine dense_iff.2 ⟨?_, fun p hp => ?_⟩
  · refine List.Nodup.map_on (fun a ha b hb hab => ?_) (hn.filter _)
    have ha := of_decide_eq_true (mem_filter.1 ha).2
    have hb := of_decide_eq_true (mem_filter.1 hb).2
    simp only [Lib.close] at hab
    split at hab <;> split at hab <;> omega
  · obtain ⟨q, hq, rfl⟩ := mem_map.1 hp
    obtain ⟨hq, hne⟩ := mem_filter.1 hq
    have hne := of_decide_eq_true hne
    have := hb q hq
    have := hb old hold
    rw [length_map]
    simp only [Lib.close]
    split <;> omega

/-- The rank `p` once `old` is moved to `new`. -/
def shift (old new p : Int) : Int :=
  if p = old then new
  else if old < p ∧ p ≤ new then p - 1
  else if new ≤ p ∧ p < old then p + 1
  else p

theorem shift_cases (old new p : Int) :
    p = old ∧ shift old new p = new ∨ p ≠ old ∧
      (old < p ∧ p ≤ new ∧ shift old new p = p - 1 ∨ new ≤ p ∧ p < old ∧ shift old new p = p + 1 ∨
        ¬(old < p ∧ p ≤ new) ∧ ¬(new ≤ p ∧ p < old) ∧ shift old new p = p) := by
  rw [shift]
  split
  · exact .inl ⟨‹_›, rfl⟩
  · refine .inr ⟨‹_›, ?_⟩
    split
    · omega
    · split <;> omega

theorem shift_injective (old new : Int) : Function.Injective (shift old new) := by
  intro a b h
  have ha := shift_cases old new a
  have hb := shift_cases old new b
  omega

/-- A move keeps the order of the others. -/
theorem shift_lt_shift (hp : p ≠ old) (hq : q ≠ old) :
    shift old new p < shift old new q ↔ p < q := by
  have hp' := shift_cases old new p
  have hq' := shift_cases old new q
  omega

theorem Dense.shift (h : Dense l) (hold : old ∈ l) (hnew : 1 ≤ new ∧ new ≤ l.length) :
    Dense (l.map (shift old new)) := by
  obtain ⟨hn, hb⟩ := dense_iff.1 h
  refine dense_iff.2 ⟨hn.map (shift_injective old new), fun p hp => ?_⟩
  obtain ⟨q, hq, rfl⟩ := mem_map.1 hp
  have := hb q hq
  have := hb old hold
  have := shift_cases old new q
  rw [length_map]
  omega

end Lib
