import Mathlib.Data.List.Nodup
import Mathlib.Tactic.Common

/-!
# Memo tables

A table of computed values by key, as a cache keeps them: `find?`, `erase`, `emplace` (which keeps
the entry that is there) and `set`.
-/

namespace Lib

open List

variable {K V : Type} [DecidableEq K]

/-- A table of values by key. -/
structure Memo (K V : Type) where
  /-- The entries, the newest first. -/
  entries : List (K × V) := []
  /-- At most one value is held for a key. -/
  nodup : (entries.map Prod.fst).Nodup := by exact List.nodup_nil

namespace Memo

/-- The memo that holds nothing. -/
def empty : Memo K V := {}

/-- The value held for a key. -/
def find? (m : Memo K V) (k : K) : Option V := (m.entries.find? (·.1 = k)).map (·.2)

/-- The number of keys held. -/
def size (m : Memo K V) : Nat := m.entries.length

/-- Forgets a key. -/
def erase (m : Memo K V) (k : K) : Memo K V :=
  ⟨m.entries.filter (·.1 ≠ k), m.nodup.sublist (List.filter_sublist.map _)⟩

/-- Holds `v` for `k` in place of what is held for it. -/
def set (m : Memo K V) (k : K) (v : V) : Memo K V :=
  ⟨(k, v) :: (m.erase k).entries, by
    rw [List.map_cons, List.nodup_cons]
    exact ⟨by simp [erase], (m.erase k).nodup⟩⟩

/-- Holds `v` for `k` unless something is held for it. -/
def emplace (m : Memo K V) (k : K) (v : V) : Memo K V :=
  match m.find? k with
  | some _ => m
  | none => m.set k v

/-- Makes room: a memo of `cap` entries or more forgets everything. -/
def bound (m : Memo K V) (cap : Nat) : Memo K V := if cap ≤ m.size then empty else m

@[simp] theorem find?_empty (k : K) : (empty : Memo K V).find? k = none := rfl

theorem find?_erase (m : Memo K V) (k k' : K) :
    (m.erase k).find? k' = if k' = k then none else m.find? k' := by
  simp only [erase, find?]
  induction m.entries with
  | nil => simp
  | cons e es ih =>
    by_cases he : e.1 = k <;> by_cases hk : e.1 = k' <;> simp_all

@[simp] theorem find?_erase_self (m : Memo K V) (k : K) : (m.erase k).find? k = none := by
  simp [find?_erase]

theorem find?_set (m : Memo K V) (k k' : K) (v : V) :
    (m.set k v).find? k' = if k' = k then some v else m.find? k' := by
  by_cases hk : k = k'
  · simp [set, find?, hk]
  · have := find?_erase m k k'
    simp_all [set, find?, eq_comm]

theorem find?_of_emplace {m : Memo K V} {k k' : K} {v w : V}
    (h : (m.emplace k v).find? k' = some w) : m.find? k' = some w ∨ k' = k ∧ w = v := by
  rw [emplace] at h
  split at h
  · exact .inl h
  · rw [find?_set] at h
    split at h
    · exact .inr ⟨‹_›, (Option.some.inj h).symm⟩
    · exact .inl h

theorem find?_of_bound {m : Memo K V} {cap : Nat} {k : K} {v : V}
    (h : (m.bound cap).find? k = some v) : m.find? k = some v := by
  rw [bound] at h
  split at h
  · cases h
  · exact h

/-- The entries are what is found. -/
theorem mem_entries {m : Memo K V} {k : K} {v : V} : (k, v) ∈ m.entries ↔ m.find? k = some v := by
  rw [find?, Option.map_eq_some_iff]
  constructor
  · intro h
    cases hf : m.entries.find? (·.1 = k) with
    | none => simpa using find?_eq_none.1 hf _ h
    | some e =>
      have he : e.1 = k := by simpa using find?_some hf
      have := inj_on_of_nodup_map m.nodup (mem_of_find?_eq_some hf) h he
      exact ⟨e, rfl, by rw [this]⟩
  · rintro ⟨e, he, rfl⟩
    have hk : e.1 = k := by simpa using find?_some he
    exact hk ▸ mem_of_find?_eq_some he

/-! ## Soundness -/

/-- Every value the memo holds is the value of `f`. -/
def Sound (m : Memo K V) (f : K → V) : Prop := ∀ k v, m.find? k = some v → v = f k

variable {m : Memo K V} {f g : K → V}

theorem sound_empty : (empty : Memo K V).Sound f := by simp [Sound]

theorem Sound.erase (h : m.Sound f) (k : K) : (m.erase k).Sound f := by
  intro k' v hv
  rw [find?_erase] at hv
  split at hv
  · cases hv
  · exact h k' v hv

theorem Sound.emplace (h : m.Sound f) (k : K) : (m.emplace k (f k)).Sound f := by
  intro k' v hv
  rcases find?_of_emplace hv with hv | ⟨rfl, rfl⟩
  · exact h k' v hv
  · rfl

theorem Sound.bound (h : m.Sound f) (cap : Nat) : (m.bound cap).Sound f :=
  fun k v hv => h k v (find?_of_bound hv)

/-- A memo is sound for each function equal on its keys. -/
theorem Sound.congr (h : m.Sound f) (hfg : ∀ k v, m.find? k = some v → f k = g k) : m.Sound g :=
  fun k v hv => (h k v hv).trans (hfg k v hv)

end Memo
end Lib
