import Decibell.Lib.Table

/-!
# Rows that are rewritten, and their keys with them

`patch p f` rewrites the rows that `p` finds by `f`. A table is `Patched` by a rewriting if its rows
are the rewritten rows of another, no key is lost, and of two rows that have one key after it, the
one wins whose key it is already.
-/

namespace Lib

open List
namespace Table

variable {R K : Type} [DecidableEq K] {key : R → K} {t t' t'' : Table key} {p q : R → Bool}
  {f g : R → R} {r x : R}

/-- Rewrites the rows that `p` finds. -/
def patch (p : R → Bool) (f : R → R) (r : R) : R := if p r then f r else r

theorem patch_of_true (h : p r = true) : patch p f r = f r := if_pos h

theorem patch_of_false (h : p r = false) : patch p f r = r := if_neg (h ▸ Bool.false_ne_true)

/-- The rows of `t'` are `t`'s, rewritten; those that keep their key win. -/
structure Patched (f : R → R) (t t' : Table key) : Prop where
  only : ∀ x ∈ t'.rows, ∃ r ∈ t.rows, x = f r
  wins : ∀ r ∈ t.rows, key (f r) = key r → f r ∈ t'.rows
  kept : ∀ r ∈ t.rows, key (f r) ∈ t'.keys

omit [DecidableEq K] in
/-- One rewriting after another, which brings back no key the first took away. -/
theorem Patched.comp (h : Patched f t t') (h' : Patched g t' t'')
    (hback : ∀ r, key (g (f r)) = key r → key (f r) = key r)
    (hkeys : ∀ x y, key x = key y → key (g x) = key (g y)) : Patched (g ∘ f) t t'' := by
  refine ⟨fun x hx => ?_, fun r hr hk => ?_, fun r hr => ?_⟩
  · obtain ⟨y, hy, rfl⟩ := h'.only x hx
    obtain ⟨r, hr, rfl⟩ := h.only y hy
    exact ⟨r, hr, rfl⟩
  · have hf := hback r hk
    exact h'.wins (f r) (h.wins r hr hf) (hk.trans hf.symm)
  · obtain ⟨y, hy, hky⟩ := mem_map.1 (h.kept r hr)
    have hg := h'.kept y hy
    rwa [hkeys y (f r) hky] at hg

omit [DecidableEq K] in
theorem patched_updateWhere {hf : ∀ r, key (f r) = key r} :
    Patched (patch p f) t (t.updateWhere p f hf) := by
  refine ⟨fun x hx => ?_, fun r hr _ => mem_map_of_mem hr, fun r hr => ?_⟩
  · obtain ⟨r, hr, rfl⟩ := mem_map.1 hx
    exact ⟨r, hr, rfl⟩
  · exact mem_map_of_mem (mem_map_of_mem hr)

/-! ## Keys that are taken -/

/-- Rewrites one row, unless its key is taken then. -/
def rekeyRow (f : R → R) (t : Table key) (r : R) : Table key :=
  if h : key (f r) ∈ t.keys then t else t.rekey (key r) (f r) h

theorem rekeyOrIgnore_eq (t : Table key) (p : R → Bool) (f : R → R) :
    t.rekeyOrIgnore p f = (t.rows.filter p).foldl (rekeyRow f) t := rfl

/-- A row of another key stays. -/
theorem mem_rekeyRow (h : x ∈ t.rows) (hk : key x ≠ key r) : x ∈ (rekeyRow f t r).rows := by
  rw [rekeyRow]
  split
  · exact h
  · exact mem_map.2 ⟨x, h, if_neg hk⟩

/-- The key of a row that was rewritten is there. -/
theorem key_mem_rekeyRow (h : r ∈ t.rows) : key (f r) ∈ (rekeyRow f t r).keys := by
  rw [rekeyRow]
  split
  · assumption
  · exact mem_map.2 ⟨f r, mem_map.2 ⟨r, h, if_pos rfl⟩, rfl⟩

theorem mem_of_mem_rekeyRow (h : x ∈ (rekeyRow f t r).rows) : x ∈ t.rows ∨ x = f r := by
  rw [rekeyRow] at h
  split at h
  · exact .inl h
  · obtain ⟨y, hy, rfl⟩ := mem_map.1 h
    split
    · exact .inr rfl
    · exact .inl hy

theorem mem_of_mem_rekeyRows {l : List R} (h : x ∈ (l.foldl (rekeyRow f) t).rows) :
    x ∈ t.rows ∨ ∃ r ∈ l, x = f r := by
  induction l generalizing t with
  | nil => exact .inl h
  | cons r l ih =>
    rcases ih h with h | ⟨y, hy, rfl⟩
    · exact (mem_of_mem_rekeyRow h).imp id fun h => ⟨r, .head l, h⟩
    · exact .inr ⟨y, .tail r hy, rfl⟩

variable (hkey : ∀ x y, key x = key y → p x = p y)
include hkey

/-- The rows that `p` does not find stay. -/
theorem mem_rekeyRows {l : List R} (hl : ∀ r ∈ l, p r = true) (hx : p x = false) (h : x ∈ t.rows) :
    x ∈ (l.foldl (rekeyRow f) t).rows := by
  induction l generalizing t with
  | nil => exact h
  | cons r l ih =>
    refine ih (fun y hy => hl y (.tail r hy)) (mem_rekeyRow h fun hk => ?_)
    have hfound := (hkey x r hk).trans (hl r (.head l))
    rw [hx] at hfound
    cases hfound

/-- Each row's new key is there, under a row that `p` does not find. -/
theorem key_mem_rekeyRows (hf : ∀ r, p r = true → p (f r) = false) {l : List R}
    (hl : ∀ r ∈ l, p r = true) (hrows : ∀ r ∈ l, r ∈ t.rows) (hnodup : (l.map key).Nodup)
    (hr : r ∈ l) : ∃ y ∈ (l.foldl (rekeyRow f) t).rows, key y = key (f r) ∧ p y = false := by
  induction l generalizing t with
  | nil => cases hr
  | cons r₀ l ih =>
    rw [map_cons, nodup_cons] at hnodup
    have hl' : ∀ r ∈ l, p r = true := fun y hy => hl y (.tail r₀ hy)
    rcases mem_cons.1 hr with rfl | hr
    · obtain ⟨y, hy, hk⟩ := mem_map.1 (key_mem_rekeyRow (f := f) (hrows r (.head l)))
      have hnot : p y = false := (hkey y (f r) hk).trans (hf r (hl r (.head l)))
      exact ⟨y, mem_rekeyRows (l := l) hkey hl' hnot hy, hk, hnot⟩
    · refine ih hl' (fun y hy => ?_) hnodup.2 hr
      -- none of those to come has its key
      refine mem_rekeyRow (hrows y (.tail r₀ hy)) fun hk => hnodup.1 ?_
      exact hk ▸ mem_map_of_mem hy

/-- `UPDATE OR IGNORE` of the rows `p` finds, and `DELETE` of the others. -/
theorem patched_rekey (hf : ∀ r, p r = true → p (f r) = false) :
    Patched (patch p f) t ((t.rekeyOrIgnore p f).deleteWhere p) := by
  have hl : ∀ r ∈ t.rows.filter p, p r = true := fun r hr => (mem_filter.1 hr).2
  rw [rekeyOrIgnore_eq]
  refine ⟨fun x hx => ?_, fun r hr hk => ?_, fun r hr => ?_⟩
  · rw [rows_deleteWhere, mem_filter, Bool.not_eq_true'] at hx
    rcases mem_of_mem_rekeyRows hx.1 with h | ⟨r, hr, rfl⟩
    · exact ⟨x, h, (patch_of_false hx.2).symm⟩
    · exact ⟨r, (mem_filter.1 hr).1, (patch_of_true (hl r hr)).symm⟩
  · cases hp : p r with
    | false =>
      rw [patch_of_false hp]
      exact mem_filter.2 ⟨mem_rekeyRows hkey hl hp hr, by rw [hp]; rfl⟩
    | true =>
      rw [patch_of_true hp] at hk
      have hfound := (hkey (f r) r hk).symm.trans (hf r hp)
      rw [hp] at hfound
      cases hfound
  · cases hp : p r with
    | false =>
      rw [patch_of_false hp]
      exact mem_map_of_mem (mem_filter.2 ⟨mem_rekeyRows hkey hl hp hr, by rw [hp]; rfl⟩)
    | true =>
      rw [patch_of_true hp]
      have hnodup : ((t.rows.filter p).map key).Nodup :=
        t.nodup.sublist (filter_sublist.map key)
      obtain ⟨y, hy, hk, hnot⟩ := key_mem_rekeyRows hkey hf hl
        (fun r hr => (mem_filter.1 hr).1) hnodup (mem_filter.2 ⟨hr, hp⟩)
      exact mem_map.2 ⟨y, mem_filter.2 ⟨hy, by rw [hnot]; rfl⟩, hk⟩

omit hkey

/-! ## Columns -/

/-- The value `new` in the place of `old`. -/
def replaced {α : Type} [DecidableEq α] (old new x : α) : α := if x = old then new else x

theorem replaced_ne {α : Type} [DecidableEq α] {old new : α} (h : new ≠ old) (x : α) :
    replaced old new x ≠ old := by
  rw [replaced]
  split
  · exact h
  · assumption

/-- A column of a table. -/
structure Column (R α : Type) where
  get : R → α
  put : α → R → R
  put_get : ∀ r, put (get r) r = r := by intro _; rfl
  get_put : ∀ a r, get (put a r) = a := by intro _ _; rfl

section Columns

variable {α : Type} [DecidableEq α] {old new : α}

omit [DecidableEq K] in
theorem patch_column (c : Column R α) (old new : α) :
    patch (fun r => decide (c.get r = old)) (c.put new) =
      fun r => c.put (replaced old new (c.get r)) r := by
  funext r
  rw [patch, replaced]
  by_cases h : c.get r = old
  · rw [if_pos (decide_eq_true h), if_pos h]
  · rw [if_neg (by simpa using h), if_neg h, c.put_get]

omit [DecidableEq K] in
/-- A column outside the key is rewritten. -/
theorem patched_column (c : Column R α) (old new : α) (t : Table key)
    (hkey : ∀ r, key (c.put new r) = key r) :
    Patched (fun r => c.put (replaced old new (c.get r)) r) t
      (t.updateWhere (fun r => decide (c.get r = old)) (c.put new) hkey) := by
  rw [← patch_column]
  exact patched_updateWhere

/-- A column of the key is rewritten. -/
theorem patched_key (c : Column R α) (h : new ≠ old) (t : Table key)
    (hkey : ∀ x y, key x = key y → c.get x = c.get y) :
    Patched (fun r => c.put (replaced old new (c.get r)) r) t
      ((t.rekeyOrIgnore (fun r => decide (c.get r = old)) (c.put new)).deleteWhere
        fun r => decide (c.get r = old)) := by
  rw [← patch_column]
  refine patched_rekey (fun x y hk => by rw [hkey x y hk]) fun r _ => ?_
  rw [c.get_put]
  exact decide_eq_false h

end Columns

end Table
end Lib
