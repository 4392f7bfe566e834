import Decibell.Lib.Table
import Mathlib.Data.List.MinMax

/-!
# Finite maps

A map is the table of its entries, in no particular order. For each operation there is what the map
has at a key afterwards, and how many entries.

* `insert`, `remove`, `retain` and `mapValues` change a map;
* `leastBy` is a key with the least value of a rank: any one where several have it.
-/

namespace Lib

open List

variable {K V T : Type}

/-- A finite map. -/
abbrev Assoc (K V : Type) := Table (Prod.fst : K × V → K)

namespace Assoc

/-- The number of entries. -/
def size (m : Assoc K V) : Nat := m.rows.length

/-- Keeps the entries with a property. -/
def retain (m : Assoc K V) (p : K → V → Bool) : Assoc K V := m.deleteWhere fun e => !p e.1 e.2

/-- Changes the value of each entry. -/
def mapValues (m : Assoc K V) (f : K → V → V) : Assoc K V :=
  m.updateWhere (fun _ => true) fun e => (e.1, f e.1 e.2)

/-- An entry whose key has the least rank. -/
def firstBy [LinearOrder T] (m : Assoc K V) (rank : K → T) : Option (K × V) :=
  m.rows.argmin fun e => rank e.1

variable [DecidableEq K]

/-- The value at a key. -/
def get? (m : Assoc K V) (k : K) : Option V := (m.find? k).map (·.2)

/-- Puts a value at a key. -/
def insert (m : Assoc K V) (k : K) (v : V) : Assoc K V := m.upsert (k, v)

/-- Takes the entry of a key out. -/
def remove (m : Assoc K V) (k : K) : Assoc K V := m.deleteWhere (·.1 = k)

/-- A key whose value has the least rank: `pick` if it is one. -/
def leastBy [LinearOrder T] (m : Assoc K V) (rank : V → T) (pick : K) : Option K :=
  if (m.get? pick).any fun v => m.rows.all fun e => rank v ≤ rank e.2 then some pick
  else (m.rows.argmin fun e => rank e.2).map (·.1)

/-- What has to go for the key to fit: of a full map without it, a least key. -/
def victim [LinearOrder T] (m : Assoc K V) (max : Nat) (rank : V → T) (pick k : K) : Option K :=
  if (m.get? k).isNone ∧ max ≤ m.size then m.leastBy rank pick else none

/-- Takes the entry of the key out, if there is one to take out. -/
def removeAny (m : Assoc K V) : Option K → Assoc K V
  | none => m
  | some k => m.remove k

/-! ## What a map has -/

variable {m : Assoc K V} {k k' : K} {v : V}

theorem get?_eq_some : m.get? k = some v ↔ (k, v) ∈ m.rows := by
  rw [get?, Option.map_eq_some_iff]
  constructor
  · rintro ⟨e, he, rfl⟩
    obtain ⟨hmem, rfl⟩ := Table.find?_eq_some.1 he
    exact hmem
  · intro h
    exact ⟨_, Table.find?_eq_some.2 ⟨h, rfl⟩, rfl⟩

theorem get?_insert : (m.insert k v).get? k' = if k' = k then some v else m.get? k' := by
  rw [get?, insert]
  split
  · rename_i h
    rw [h, Table.find?_upsert (r := (k, v))]
    rfl
  · rename_i h
    rw [Table.find?_upsert_of_ne h]
    rfl

/-- What is there after an insert was inserted, or was there. -/
theorem get?_insert_eq_some {w : V} (h : (m.insert k v).get? k' = some w) :
    k' = k ∧ w = v ∨ k' ≠ k ∧ m.get? k' = some w := by
  rw [get?_insert] at h
  split at h
  · next heq => exact .inl ⟨heq, (Option.some.inj h).symm⟩
  · next hne => exact .inr ⟨hne, h⟩

theorem get?_remove : (m.remove k).get? k' = if k' = k then none else m.get? k' := by
  rw [get?, remove, Table.find?_deleteWhere_key]
  split <;> rfl

theorem get?_remove_eq_some {w : V} (h : (m.remove k).get? k' = some w) :
    k' ≠ k ∧ m.get? k' = some w := by
  rw [get?_remove] at h
  split at h
  · cases h
  · next hne => exact ⟨hne, h⟩

theorem get?_removeAny {o : Option K} :
    (m.removeAny o).get? k = if o = some k then none else m.get? k := by
  cases o with
  | none => rfl
  | some k' =>
    rw [removeAny, get?_remove]
    by_cases h : k = k'
    · rw [if_pos h, if_pos (congrArg some h.symm)]
    · rw [if_neg h, if_neg fun h' => h (Option.some.inj h').symm]

theorem get?_retain {p : K → V → Bool} : (m.retain p).get? k = (m.get? k).filter (p k) := by
  refine Option.ext fun v => ?_
  rw [get?_eq_some, Option.filter_eq_some_iff, get?_eq_some]
  simp [retain]

theorem get?_mapValues {f : K → V → V} : (m.mapValues f).get? k = (m.get? k).map (f k) := by
  refine Option.ext fun v => ?_
  rw [get?_eq_some, Option.map_eq_some_iff]
  simp only [mapValues, Table.rows_updateWhere, if_true, mem_map, Prod.mk.injEq, get?_eq_some]
  constructor
  · rintro ⟨e, he, rfl, hv⟩
    exact ⟨e.2, he, hv⟩
  · rintro ⟨w, hw, hv⟩
    exact ⟨(k, w), hw, rfl, hv⟩

/-! ## Its entries -/

/-- The entry of a key, and the others. -/
theorem rows_perm_remove (m : Assoc K V) (k : K) :
    m.rows.Perm ((m.get? k).toList.map (k, ·) ++ (m.remove k).rows) := by
  have hself : m.rows.filter (·.1 = k) = (m.get? k).toList.map (k, ·) := by
    have hfind : m.find? k = (m.rows.filter (·.1 = k)).head? := Table.find?_eq_head?
    have hone : (m.rows.filter (·.1 = k)).length ≤ 1 := by
      rw [← countP_eq_length_filter]
      exact Table.countP_le_one fun e he => of_decide_eq_true he
    rw [get?, hfind]
    cases hrows : m.rows.filter (·.1 = k) with
    | nil => rfl
    | cons e rest =>
      obtain rfl : rest = [] := by
        rw [hrows, length_cons] at hone
        exact length_eq_zero_iff.1 (by omega)
      have he : e ∈ m.rows.filter (·.1 = k) := hrows ▸ mem_singleton_self e
      obtain rfl : e.1 = k := of_decide_eq_true (mem_filter.1 he).2
      rfl
  rw [← hself]
  exact (filter_append_perm _ _).symm

theorem rows_perm_of_get? (h : m.get? k = some v) : m.rows.Perm ((k, v) :: (m.remove k).rows) := by
  have hrows := m.rows_perm_remove k
  rw [h] at hrows
  exact hrows

theorem rows_insert_perm (m : Assoc K V) (k : K) (v : V) :
    (m.insert k v).rows.Perm ((k, v) :: (m.remove k).rows) := by
  have hothers : ((m.insert k v).remove k).rows = (m.remove k).rows :=
    Table.filter_upsert fun e he => by rw [Bool.not_eq_false', decide_eq_true_eq]; exact he
  have hrows := (m.insert k v).rows_perm_remove k
  rw [get?_insert, if_pos rfl, hothers] at hrows
  exact hrows

/-! ## How much it has -/

variable (m k v) in
theorem size_insert_le : (m.insert k v).size ≤ m.size + 1 := by
  rw [insert, Table.upsert, size, size]
  split
  · simp [Table.mapKey]
  · simp [Table.append]

/-- A value put in the place of another. -/
theorem size_insert_of_mem (h : (m.get? k).isSome) : (m.insert k v).size = m.size := by
  obtain ⟨w, hw⟩ := Option.isSome_iff_exists.1 h
  have hk : k ∈ m.keys := mem_map.2 ⟨(k, w), get?_eq_some.1 hw, rfl⟩
  rw [insert, Table.upsert, size, size, dif_pos hk]
  simp [Table.mapKey]

omit [DecidableEq K] in
theorem size_retain_le {p : K → V → Bool} : (m.retain p).size ≤ m.size := length_filter_le _ _

theorem size_remove_le : (m.remove k).size ≤ m.size := length_filter_le _ _

theorem size_removeAny_le {o : Option K} : (m.removeAny o).size ≤ m.size := by
  cases o with
  | none => exact le_rfl
  | some k => exact size_remove_le

theorem size_remove_lt (h : (m.get? k).isSome) : (m.remove k).size < m.size := by
  obtain ⟨w, hw⟩ := Option.isSome_iff_exists.1 h
  exact length_filter_lt_length_iff_exists.2 ⟨(k, w), get?_eq_some.1 hw, by simp⟩

omit [DecidableEq K] in
@[simp] theorem size_mapValues {f : K → V → V} : (m.mapValues f).size = m.size := by
  simp [size, mapValues]

omit [DecidableEq K] in
theorem mem_of_firstBy [LinearOrder T] {rank : K → T} {e : K × V} (h : m.firstBy rank = some e) :
    e ∈ m.rows := argmin_mem h

omit [DecidableEq K] in
theorem exists_firstBy [LinearOrder T] (rank : K → T) (h : 0 < m.size) :
    ∃ e, m.firstBy rank = some e ∧ ∀ e' ∈ m.rows, rank e.1 ≤ rank e'.1 := by
  rw [firstBy]
  cases hmin : m.rows.argmin fun e => rank e.1 with
  | none =>
    rw [argmin_eq_none] at hmin
    rw [size, hmin] at h
    cases h
  | some e =>
    exact ⟨e, rfl, fun e' he' => le_of_mem_argmin (f := fun e => rank e.1) he' hmin⟩

variable (m) in
/-- A map that is not empty has a key of least rank. -/
theorem exists_leastBy [LinearOrder T] (rank : V → T) (pick : K) (h : 0 < m.size) :
    ∃ k, m.leastBy rank pick = some k ∧ (m.get? k).isSome := by
  rw [leastBy]
  split
  · rename_i hpick
    refine ⟨pick, rfl, ?_⟩
    cases hget : m.get? pick with
    | none => rw [hget] at hpick; cases hpick
    | some v => rfl
  · cases hmin : m.rows.argmin fun e => rank e.2 with
    | none =>
      rw [argmin_eq_none] at hmin
      rw [size, hmin] at h
      cases h
    | some e =>
      exact ⟨e.1, rfl, Option.isSome_iff_exists.2 ⟨e.2, get?_eq_some.2 (argmin_mem hmin)⟩⟩

/-- The victim for a key is not the key itself. -/
theorem get?_removeAny_victim [LinearOrder T] {rank : V → T} {pick : K} {max : Nat} :
    (m.removeAny (m.victim max rank pick k)).get? k = m.get? k := by
  rw [get?_removeAny]
  split
  · rename_i hself
    rw [victim] at hself
    split at hself
    · rename_i hroom
      exact (Option.isNone_iff_eq_none.1 hroom.1).symm
    · cases hself
  · rfl

/-- A map stays in its bound if the victim goes before a put. -/
theorem size_insert_victim [LinearOrder T] {rank : V → T} {pick : K} {max : Nat} (hmax : 0 < max)
    (h : m.size ≤ max) : ((m.removeAny (m.victim max rank pick k)).insert k v).size ≤ max := by
  rw [victim]
  split
  · -- Full, and the key is new: one entry goes.
    obtain ⟨old, hold, hmem⟩ := m.exists_leastBy rank pick (by omega)
    rw [hold, removeAny]
    have hgone := size_remove_lt hmem
    have hcame := (m.remove old).size_insert_le k v
    omega
  · rename_i hroom
    rw [removeAny]
    by_cases hmem : (m.get? k).isSome
    · rw [size_insert_of_mem hmem]
      exact h
    · have hcame := m.size_insert_le k v
      rw [Option.not_isSome_iff_eq_none] at hmem
      simp only [hmem, Option.isNone_none, true_and, Nat.not_le] at hroom
      omega

end Assoc
end Lib
