import Decibell.Lib.Assoc
import Mathlib.Algebra.GroupWithZero.Nat
import Mathlib.Algebra.BigOperators.Group.List.Basic

/-!
# Slots

A map keeps for each key how many slots it has taken, up to a number for each and a number for all.
`Accounted` is what holds of the map, of the number of all and of the slots that are taken; each
operation keeps it, and a key that has a slot is not forgotten (`Accounted.remembered`).
-/

namespace Lib

open List
namespace Slots

variable {K V : Type} [DecidableEq K] (held : V → Nat)

/-- The slots of a key. -/
def slots (m : Assoc K V) (k : K) : Nat := (m.get? k).elim 0 held

/-- The slots of all keys. -/
def sum (m : Assoc K V) : Nat := (m.rows.map fun e => held e.2).sum

/-- The slots are those taken and not given back, within the bounds: of all keys, each key, and
    keys. -/
structure Accounted (total each bound : Nat) (m : Assoc K V) (n : Nat) (taken : List K) : Prop where
  count : ∀ k, slots held m k = taken.count k
  sum_eq : n = sum held m
  length_eq : n = taken.length
  le_total : n ≤ total
  le_each : ∀ k, slots held m k ≤ each
  le_bound : m.size ≤ bound

variable {held} {total each bound n : Nat} {m : Assoc K V} {taken : List K} {k : K} {v : V}

theorem slots_of_get? (h : m.get? k = some v) : slots held m k = held v := by rw [slots, h]; rfl

theorem slots_insert (k' : K) :
    slots held (m.insert k v) k' = if k' = k then held v else slots held m k' := by
  rw [slots, Assoc.get?_insert]
  split
  · rfl
  · rfl

variable (held m k v) in
theorem sum_insert : sum held (m.insert k v) + slots held m k = sum held m + held v := by
  have hafter : sum held (m.insert k v) = held v + sum held (m.remove k) :=
    ((m.rows_insert_perm k v).map fun e : K × V => held e.2).sum_eq.trans sum_cons
  have hbefore := ((m.rows_perm_remove k).map fun e : K × V => held e.2).sum_eq
  have hself :
      (((m.get? k).toList.map (k, ·)).map fun e : K × V => held e.2).sum = slots held m k := by
    rw [slots]
    cases m.get? k with
    | none => rfl
    | some w => exact Nat.add_zero _
  rw [map_append, sum_append, hself] at hbefore
  rw [hafter, sum, sum, hbefore]
  omega

theorem accounted_empty : Accounted held total each bound (Table.empty : Assoc K V) 0 [] where
  count _ := rfl
  sum_eq := rfl
  length_eq := rfl
  le_total := Nat.zero_le _
  le_each _ := Nat.zero_le _
  le_bound := Nat.zero_le _

namespace Accounted

variable (h : Accounted held total each bound m n taken)

include h

/-- A key that has a slot is in the map. -/
theorem remembered (hk : k ∈ taken) : ∃ v, m.get? k = some v ∧ held v = taken.count k := by
  have hcount := h.count k
  have hpos := count_pos_iff.2 hk
  rw [slots] at hcount
  cases hget : m.get? k with
  | none =>
    rw [hget] at hcount
    change 0 = _ at hcount
    omega
  | some v =>
    rw [hget] at hcount
    exact ⟨v, rfl, hcount⟩

theorem le_each_row {e : K × V} (he : e ∈ m.rows) : held e.2 ≤ each := by
  have heach := h.le_each e.1
  rwa [slots_of_get? (Assoc.get?_eq_some.2 he)] at heach

/-- Keys without a slot go. -/
theorem retain {p : K → V → Bool} (hidle : ∀ k v, p k v = false → held v = 0) :
    Accounted held total each bound (m.retain p) n taken := by
  have hslots (k : K) : slots held (m.retain p) k = slots held m k := by
    rw [slots, slots, Assoc.get?_retain]
    cases m.get? k with
    | none => rfl
    | some v =>
      rw [Option.filter_some]
      split
      · rfl
      · rename_i hp
        exact (hidle k v (Bool.eq_false_iff.2 hp)).symm
  refine ⟨fun k => hslots k ▸ h.count k, ?_, h.length_eq, h.le_total,
    fun k => hslots k ▸ h.le_each k, Nat.le_trans Assoc.size_retain_le h.le_bound⟩
  rw [h.sum_eq, sum, sum, Assoc.retain, Table.rows_deleteWhere]
  induction m.rows with
  | nil => rfl
  | cons e l ih =>
    rw [filter_cons]
    split
    · rw [map_cons, map_cons, sum_cons, sum_cons, ih]
    · rename_i hp
      rw [map_cons, sum_cons, ih, hidle e.1 e.2 (by simpa using hp), Nat.zero_add]

/-- What else the map keeps changes. -/
theorem mapValues {f : K → V → V} (hf : ∀ k v, held (f k v) = held v) :
    Accounted held total each bound (m.mapValues f) n taken := by
  have hslots (k : K) : slots held (m.mapValues f) k = slots held m k := by
    rw [slots, slots, Assoc.get?_mapValues]
    cases m.get? k with
    | none => rfl
    | some v => exact hf k v
  refine ⟨fun k => hslots k ▸ h.count k, ?_, h.length_eq, h.le_total,
    fun k => hslots k ▸ h.le_each k, ?_⟩
  · rw [h.sum_eq, sum, sum, Assoc.mapValues, Table.rows_updateWhere, map_map]
    exact congrArg List.sum (map_congr_left fun e _ => (hf e.1 e.2).symm)
  · rw [Assoc.size_mapValues]
    exact h.le_bound

theorem size_insert_le (hroom : (m.get? k).isSome ∨ m.size < bound) :
    (m.insert k v).size ≤ bound := by
  rcases hroom with hmem | hroom
  · rw [Assoc.size_insert_of_mem hmem]
    exact h.le_bound
  · exact Nat.le_trans (Assoc.size_insert_le m k v) hroom

theorem put (hv : held v = slots held m k) (hroom : (m.get? k).isSome ∨ m.size < bound) :
    Accounted held total each bound (m.insert k v) n taken := by
  have hslots (k' : K) : slots held (m.insert k v) k' = slots held m k' := by
    rw [slots_insert]
    split
    · rename_i heq
      rw [heq, hv]
    · rfl
  have hsum := sum_insert held m k v
  have hn := h.sum_eq
  exact ⟨fun k => hslots k ▸ h.count k, by omega, h.length_eq, h.le_total,
    fun k => hslots k ▸ h.le_each k, h.size_insert_le hroom⟩

/-- A key takes a slot. -/
theorem take (hv : held v = slots held m k + 1) (htotal : n < total) (heach : slots held m k < each)
    (hroom : (m.get? k).isSome ∨ m.size < bound) :
    Accounted held total each bound (m.insert k v) (n + 1) (k :: taken) := by
  have hsum := sum_insert held m k v
  have hn := h.sum_eq
  refine ⟨fun k' => ?_, by omega, congrArg (· + 1) h.length_eq, htotal, fun k' => ?_,
    h.size_insert_le hroom⟩
  · rw [slots_insert, count_cons]
    split
    · rename_i heq
      rw [heq, hv, h.count, beq_self_eq_true, if_pos rfl]
    · rename_i hne
      rw [h.count, beq_eq_false_iff_ne.2 fun heq => hne heq.symm, if_neg Bool.false_ne_true,
        Nat.add_zero]
  · rw [slots_insert]
    split
    · rw [hv]
      exact heach
    · exact h.le_each k'

/-- A key gives a slot back. -/
theorem give (hk : k ∈ taken) (hv : held v + 1 = slots held m k) :
    Accounted held total each bound (m.insert k v) (n - 1) (taken.erase k) := by
  have hsum := sum_insert held m k v
  have hn := h.sum_eq
  obtain ⟨w, hw, -⟩ := h.remembered hk
  refine ⟨fun k' => ?_, by omega, ?_, Nat.le_trans (Nat.sub_le n 1) h.le_total, fun k' => ?_,
    h.size_insert_le (.inl (Option.isSome_iff_exists.2 ⟨w, hw⟩))⟩
  · have hcount := h.count k'
    rw [slots_insert]
    split
    · rename_i heq
      rw [heq] at hcount ⊢
      rw [count_erase_self]
      omega
    · rename_i hne
      rw [count_erase_of_ne hne, hcount]
  · rw [length_erase_of_mem hk, h.length_eq]
  · have heach := h.le_each k'
    rw [slots_insert]
    split
    · rename_i heq
      rw [heq] at heach
      omega
    · exact heach

end Accounted

end Slots
end Lib
