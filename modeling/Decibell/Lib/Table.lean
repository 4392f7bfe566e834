import Mathlib.Data.List.Basic
import Mathlib.Data.List.Nodup
import Mathlib.Tactic.Common

/-!
# Tables with a primary key

A table is a list of rows no two of which have the same key, in the order in which a query that does
not ask for one gives them.
-/

namespace Lib

open List

variable {K R : Type} {key : R → K}

/-- Rows with unique keys. -/
structure Table (key : R → K) where
  /-- The rows, in the order an unordered query returns them. -/
  rows : List R
  /-- The primary key constraint. -/
  nodup : (rows.map key).Nodup

namespace Table

theorem ext_rows {t t' : Table key} (h : t.rows = t'.rows) : t = t' := by
  cases t
  cases t'
  cases h
  rfl

/-- The table without rows. -/
def empty : Table key := ⟨[], List.nodup_nil⟩

@[simp] theorem empty_rows : (empty : Table key).rows = [] := rfl

/-- The keys of the rows. -/
def keys (t : Table key) : List K := t.rows.map key

variable [DecidableEq K]

/-- The row with the key. -/
def find? (t : Table key) (k : K) : Option R := t.rows.find? (key · = k)

/-- Adds a row at the end. -/
def append (t : Table key) (r : R) (h : key r ∉ t.keys) : Table key :=
  ⟨t.rows ++ [r], by
    rw [List.map_append]
    exact t.nodup.append (List.nodup_singleton _) (by simpa [keys] using h)⟩

/-- `INSERT`: refused when the key is taken. -/
def insert (t : Table key) (r : R) : Option (Table key) :=
  if h : key r ∈ t.keys then none else some (t.append r h)

/-- `INSERT OR IGNORE`: nothing happens when the key is taken. -/
def insertOrIgnore (t : Table key) (r : R) : Table key :=
  if h : key r ∈ t.keys then t else t.append r h

/-- `DELETE … WHERE`. -/
def deleteWhere (t : Table key) (p : R → Bool) : Table key :=
  ⟨t.rows.filter (! p ·), t.nodup.sublist (List.filter_sublist.map key)⟩

/-- Puts `f r` in the place of every row `r` of the key `k`. -/
def mapKey (t : Table key) (k : K) (f : R → R) (h : ∀ r, key r = k → key (f r) = k) : Table key :=
  ⟨t.rows.map fun r => if key r = k then f r else r, by
    have : (key ∘ fun r => if key r = k then f r else r) = key := by
      funext r
      by_cases hr : key r = k <;> simp [hr, h]
    rw [List.map_map, this]
    exact t.nodup⟩

/-- `INSERT … ON CONFLICT DO UPDATE`: the row replaces that of its key. -/
def upsert (t : Table key) (r : R) : Table key :=
  if h : key r ∈ t.keys then t.mapKey (key r) (fun _ => r) (fun _ _ => rfl) else t.append r h

/-- The rows of a list: of several with one key, the last. -/
def ofRows (l : List R) : Table key := l.foldl upsert empty

/-- `UPDATE … WHERE`, of columns outside the key. -/
def updateWhere (t : Table key) (p : R → Bool) (f : R → R)
    (h : ∀ r, key (f r) = key r := by intro _; rfl) : Table key :=
  ⟨t.rows.map fun r => if p r then f r else r, by
    have : (key ∘ fun r => if p r then f r else r) = key := by
      funext r
      by_cases hr : p r <;> simp [hr, h]
    rw [List.map_map, this]
    exact t.nodup⟩

/-- Puts the row `r` in place of that with key `k`, under a free key. -/
def rekey (t : Table key) (k : K) (r : R) (h : key r ∉ t.keys) : Table key :=
  ⟨t.rows.map fun x => if key x = k then r else x, by
    rw [List.map_map]
    refine List.Nodup.map_on (fun x hx y hy hxy => ?_) (List.Nodup.of_map key t.nodup)
    have free : ∀ z ∈ t.rows, key z ≠ key r := fun z hz hk => h (hk ▸ List.mem_map_of_mem hz)
    have inj := List.inj_on_of_nodup_map t.nodup
    by_cases hxk : key x = k <;> by_cases hyk : key y = k <;>
      simp only [Function.comp_apply, hxk, hyk, if_true, if_false] at hxy
    · exact inj hx hy (hxk.trans hyk.symm)
    · exact absurd hxy.symm (free y hy)
    · exact absurd hxy (free x hx)
    · exact inj hx hy hxy⟩

/-- `UPDATE OR IGNORE … WHERE`, of key columns: row by row, skipping a taken key. -/
def rekeyOrIgnore (t : Table key) (p : R → Bool) (f : R → R) : Table key :=
  (t.rows.filter p).foldl
    (fun t r => if h : key (f r) ∈ t.keys then t else t.rekey (key r) (f r) h) t

/-- Rewriting unseen rows into unseen ones is not seen by a query. -/
theorem filter_map_of_unseen {l : List R} {p : R → Bool} {f : R → R}
    (h : ∀ r ∈ l, f r = r ∨ p r = false ∧ p (f r) = false) : (l.map f).filter p = l.filter p := by
  induction l with
  | nil => rfl
  | cons r l ih =>
    have ih := ih fun r hr => h r (.tail _ hr)
    rw [map_cons, filter_cons, filter_cons, ih]
    rcases h r (.head l) with hr | ⟨hr, hfr⟩
    · rw [hr]
    · simp [hr, hfr]

/-! ## The rows after a statement -/

variable {t t' : Table key} {r : R} {p : R → Bool}

omit [DecidableEq K] in
@[simp] theorem rows_deleteWhere : (t.deleteWhere p).rows = t.rows.filter (! p ·) := rfl

omit [DecidableEq K] in
@[simp] theorem rows_updateWhere {f : R → R} {h : ∀ r, key (f r) = key r} :
    (t.updateWhere p f h).rows = t.rows.map fun r => if p r then f r else r := rfl

omit [DecidableEq K] in
@[simp] theorem keys_updateWhere {f : R → R} {h : ∀ r, key (f r) = key r} :
    (t.updateWhere p f h).keys = t.keys := by
  rw [keys, rows_updateWhere, map_map]
  refine map_congr_left fun r _ => ?_
  by_cases hr : p r <;> simp [hr, h]

theorem rows_of_insert (h : t.insert r = some t') : t'.rows = t.rows ++ [r] := by
  rw [insert] at h
  split at h
  · cases h
  · cases h
    rfl

theorem insert_eq_some (h : key r ∉ t.keys) : t.insert r = some (t.append r h) := dif_neg h

/-- An upsert is unseen by a query without its key. -/
theorem filter_upsert (h : ∀ x, key x = key r → p x = false) :
    (t.upsert r).rows.filter p = t.rows.filter p := by
  rw [upsert]
  split
  · refine filter_map_of_unseen fun x _ => ?_
    by_cases hx : key x = key r
    · exact .inr ⟨h x hx, by rw [if_pos hx]; exact h r rfl⟩
    · exact .inl (if_neg hx)
  · simp [append, h r rfl]

theorem mem_upsert {x : R} (h : x ∈ (t.upsert r).rows) : x ∈ t.rows ∨ x = r := by
  rw [upsert] at h
  split at h
  · obtain ⟨y, hy, rfl⟩ := mem_map.1 h
    split
    · exact .inr rfl
    · exact .inl hy
  · simpa [append] using h

theorem mem_insertOrIgnore {x : R} (hk : ∀ x, key x = key r → x = r) :
    x ∈ (t.insertOrIgnore r).rows ↔ x ∈ t.rows ∨ x = r := by
  rw [insertOrIgnore]
  split
  · rename_i h
    obtain ⟨y, hy, hyr⟩ := mem_map.1 h
    exact ⟨.inl, fun hx => hx.elim id fun hx => by rwa [hx, ← hk y hyr]⟩
  · simp [append]

theorem mem_of_mem_insertOrIgnore {x : R} (h : x ∈ (t.insertOrIgnore r).rows) :
    x ∈ t.rows ∨ x = r := by
  rw [insertOrIgnore] at h
  split at h
  · exact .inl h
  · simpa [append] using h

theorem mem_insertOrIgnore_of_mem {x : R} (h : x ∈ t.rows) : x ∈ (t.insertOrIgnore r).rows := by
  rw [insertOrIgnore]
  split
  · exact h
  · exact mem_append_left _ h

/-- What many insertions add are their rows. -/
theorem mem_of_mem_foldl_insertOrIgnore {ι : Type} {f : ι → R} {l : List ι} {x : R}
    (h : x ∈ (l.foldl (fun t i => t.insertOrIgnore (f i)) t).rows) :
    x ∈ t.rows ∨ ∃ i ∈ l, x = f i := by
  induction l generalizing t with
  | nil => exact .inl h
  | cons i l ih =>
    rcases ih h with h | ⟨j, hj, rfl⟩
    · rcases mem_of_mem_insertOrIgnore h with h | rfl
      · exact .inl h
      · exact .inr ⟨i, .head l, rfl⟩
    · exact .inr ⟨j, .tail i hj, rfl⟩

theorem mem_foldl_insertOrIgnore_of_mem {ι : Type} {f : ι → R} {l : List ι} {x : R}
    (h : x ∈ t.rows) : x ∈ (l.foldl (fun t i => t.insertOrIgnore (f i)) t).rows := by
  induction l generalizing t with
  | nil => exact h
  | cons i l ih => exact ih (mem_insertOrIgnore_of_mem h)

/-- A row is one of the table before, or one rewritten. -/
theorem mem_rekeyOrIgnore {f : R → R} {x : R} (h : x ∈ (t.rekeyOrIgnore p f).rows) :
    x ∈ t.rows ∨ ∃ y ∈ t.rows, x = f y := by
  have fold : ∀ (l : List R) (u : Table key), (∀ y ∈ l, y ∈ t.rows) →
      (∀ x ∈ u.rows, x ∈ t.rows ∨ ∃ y ∈ t.rows, x = f y) →
      ∀ x ∈ (l.foldl (fun u r => if h : key (f r) ∈ u.keys then u
        else u.rekey (key r) (f r) h) u).rows, x ∈ t.rows ∨ ∃ y ∈ t.rows, x = f y := by
    intro l
    induction l with
    | nil => exact fun u _ hu => hu
    | cons r l ih =>
      intro u hl hu
      refine ih _ (fun y hy => hl y (.tail _ hy)) fun x hx => ?_
      dsimp only at hx
      split at hx
      · exact hu x hx
      · obtain ⟨y, hy, rfl⟩ := mem_map.1 hx
        split
        · exact .inr ⟨r, hl r (.head _), rfl⟩
        · exact hu y hy
  exact fold _ t (fun y hy => (mem_filter.1 hy).1) (fun x hx => .inl hx) x h

omit [DecidableEq K] in
/-- A row is determined by its key. -/
theorem eq_of_key {a b : R} (ha : a ∈ t.rows) (hb : b ∈ t.rows) (hk : key a = key b) : a = b :=
  inj_on_of_nodup_map t.nodup ha hb hk

theorem find?_eq_some {k : K} : t.find? k = some r ↔ r ∈ t.rows ∧ key r = k := by
  rw [find?]
  constructor
  · intro h
    exact ⟨mem_of_find?_eq_some h, by simpa using find?_some h⟩
  · rintro ⟨hr, rfl⟩
    cases h : t.rows.find? (key · = key r) with
    | none => simpa using find?_eq_none.1 h r hr
    | some a =>
      rw [eq_of_key (mem_of_find?_eq_some h) hr (by simpa using find?_some h)]

theorem mem_keys {k : K} : k ∈ t.keys ↔ ∃ x, t.find? k = some x := by
  rw [keys, mem_map]
  constructor
  · rintro ⟨x, hx, hk⟩
    exact ⟨x, find?_eq_some.2 ⟨hx, hk⟩⟩
  · rintro ⟨x, hx⟩
    exact ⟨x, find?_eq_some.1 hx⟩

theorem mem_keys_upsert {k : K} (h : k ∈ t.keys) : k ∈ (t.upsert r).keys := by
  rw [upsert]
  split
  · obtain ⟨x, hx, rfl⟩ := mem_map.1 h
    by_cases hk : key x = key r
    · exact mem_map.2 ⟨r, mem_map.2 ⟨x, hx, if_pos hk⟩, hk.symm⟩
    · exact mem_map.2 ⟨x, mem_map.2 ⟨x, hx, if_neg hk⟩, rfl⟩
  · obtain ⟨x, hx, rfl⟩ := mem_map.1 h
    exact mem_map.2 ⟨x, mem_append_left _ hx, rfl⟩

theorem find?_upsert : (t.upsert r).find? (key r) = some r := by
  refine find?_eq_some.2 ⟨?_, rfl⟩
  rw [upsert]
  split
  · rename_i h
    obtain ⟨x, hx, hk⟩ := mem_map.1 h
    exact mem_map.2 ⟨x, hx, if_pos hk⟩
  · simp [append]

/-- Of the rows with one key there is at most one. -/
theorem countP_le_one {k : K} (h : ∀ x, p x = true → key x = k) : t.rows.countP p ≤ 1 := by
  calc t.rows.countP p ≤ t.rows.countP (fun x => key x == k) :=
        countP_mono_left fun x _ hx => beq_iff_eq.2 (h x hx)
    _ = (t.rows.map key).count k := by
        rw [List.count, countP_map]
        rfl
    _ ≤ 1 := nodup_iff_count_le_one.1 t.nodup k

omit [DecidableEq K] in
/-- An update that no row is picked for. -/
theorem updateWhere_of_none {f : R → R} {hf : ∀ r, key (f r) = key r} (h : t.rows.countP p = 0) :
    t.updateWhere p f hf = t := by
  refine ext_rows (rows_updateWhere.trans ?_)
  have hid : ∀ x ∈ t.rows, (if p x = true then f x else x) = x := fun x hx =>
    if_neg (countP_eq_zero.1 h x hx)
  exact (map_congr_left hid).trans (map_id _)

/-- A query by key is a query that returns rows of that key only. -/
theorem find?_eq_head? {k : K} : t.find? k = (t.rows.filter (key · = k)).head? :=
  head?_filter.symm

theorem find?_upsert_of_ne {k : K} (h : k ≠ key r) : (t.upsert r).find? k = t.find? k := by
  rw [find?_eq_head?, find?_eq_head?, filter_upsert]
  exact fun x hx => decide_eq_false fun hk => h (hk.symm.trans hx)

theorem find?_deleteWhere_key {k k' : K} : (t.deleteWhere (key · = k)).find? k' =
    if k' = k then none else t.find? k' := by
  rw [find?_eq_head?, rows_deleteWhere, filter_filter, find?_eq_head?]
  split
  · rename_i hk
    subst hk
    rw [filter_eq_nil_iff.2, head?_nil]
    simp
  · rename_i hk
    congr 1
    refine filter_congr fun x _ => ?_
    by_cases hx : key x = k'
    · simp [hx, hk]
    · simp [hx]

theorem find?_updateWhere {f : R → R} {h : ∀ r, key (f r) = key r} {k : K} :
    (t.updateWhere p f h).find? k = (t.find? k).map fun r => if p r then f r else r := by
  have hpred : ((key · = k) : R → Bool) ∘ (fun r => if p r then f r else r) = (key · = k) := by
    funext r
    by_cases hr : p r <;> simp [hr, h]
  rw [find?, rows_updateWhere, find?_map, hpred, find?]

theorem find?_insertOrIgnore_of_new {k : K} (h : key r ∉ t.keys) :
    (t.insertOrIgnore r).find? k = if k = key r then some r else t.find? k := by
  have hnone : t.find? (key r) = none := by
    cases hfind : t.find? (key r) with
    | none => rfl
    | some x => exact absurd (mem_keys.2 ⟨x, hfind⟩) h
  rw [insertOrIgnore, dif_neg h, find?, append, find?_append]
  change ((t.find? k).or _) = _
  split
  · rename_i hk
    subst hk
    rw [hnone]
    simp
  · rename_i hk
    have hne : key r ≠ k := fun heq => hk heq.symm
    simp [hne]

/-- A list without a key that comes twice is the table of its rows. -/
theorem rows_ofRows {l : List R} (h : (l.map key).Nodup) : (ofRows l : Table key).rows = l := by
  have hrows : ∀ t : Table key, ((t.rows ++ l).map key).Nodup →
      (l.foldl upsert t).rows = t.rows ++ l := by
    clear h
    induction l with
    | nil => exact fun t _ => (append_nil _).symm
    | cons r l ih =>
      intro t hnodup
      have hnew : key r ∉ t.keys := by
        rw [map_append, map_cons] at hnodup
        exact fun hr => disjoint_of_nodup_append hnodup hr (.head _)
      have hupsert : (t.upsert r).rows = t.rows ++ [r] := by rw [upsert, dif_neg hnew, append]
      rw [foldl_cons, ih _ (by rwa [hupsert, append_assoc]), hupsert, append_assoc]
      rfl
  exact (hrows empty h).trans (nil_append _)

end Table
end Lib
