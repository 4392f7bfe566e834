import Mathlib.Data.List.Basic
import Mathlib.Logic.Function.Basic
import Mathlib.Tactic.Common

/-!
# Changes that are passed on later

Two places hold the same values. A change is made in one of them, and passed on to the other later,
by a thread of its own: what is still to be passed on is a list, in the order of the changes. Items
may be taken `InTurn`, before no other that they must not overtake (`foldl_eraseIdx`).
-/

namespace Lib

open Function List

variable {α σ : Type}

/-- No item before the `i`-th one stands in its way. -/
def InTurn (blocks : α → α → Prop) (l : List α) (i : Nat) : Prop :=
  ∀ a, l[i]? = some a → ∀ b ∈ l.take i, ¬ blocks b a

instance (blocks : α → α → Prop) [DecidableRel blocks] (l : List α) (i : Nat) :
    Decidable (InTurn blocks l i) :=
  decidable_of_iff (l[i]?.all fun a => (l.take i).all fun b => !blocks b a) <| by
    simp [InTurn, Option.all_eq_true]

theorem InTurn.map {β : Type} {blocks : β → β → Prop} {f : α → β} {l : List α} {i : Nat}
    (h : InTurn (fun a b => blocks (f a) (f b)) l i) : InTurn blocks (l.map f) i := by
  intro b hb c hc
  rw [getElem?_map, Option.map_eq_some_iff] at hb
  obtain ⟨a, ha, rfl⟩ := hb
  rw [← map_take, mem_map] at hc
  obtain ⟨a', ha', rfl⟩ := hc
  exact h a ha a' ha'

theorem split_of_getElem? {l : List α} {i : Nat} {a : α} (h : l[i]? = some a) :
    l = l.take i ++ a :: l.drop (i + 1) ∧ l.eraseIdx i = l.take i ++ l.drop (i + 1) := by
  obtain ⟨hlt, rfl⟩ := List.getElem?_eq_some_iff.1 h
  refine ⟨?_, eraseIdx_eq_take_drop_succ l i⟩
  rw [← drop_eq_getElem_cons hlt, take_append_drop]

theorem foldl_comm {f : σ → α → σ} {l : List α} {a : α}
    (h : ∀ b ∈ l, ∀ s, f (f s b) a = f (f s a) b) (s : σ) :
    f (l.foldl f s) a = l.foldl f (f s a) := by
  induction l generalizing s with
  | nil => rfl
  | cons b l ih =>
    rw [foldl_cons, foldl_cons, ih fun c hc => h c (.tail b hc), h b (.head l)]

/-- An item may take effect before those that commute with it. -/
theorem foldl_eraseIdx {f : σ → α → σ} {l : List α} {i : Nat} {a : α} (hget : l[i]? = some a)
    (h : ∀ b ∈ l.take i, ∀ s, f (f s b) a = f (f s a) b) (s : σ) :
    (l.eraseIdx i).foldl f (f s a) = l.foldl f s := by
  obtain ⟨hl, herase⟩ := split_of_getElem? hget
  rw [herase, foldl_append, ← foldl_comm h]
  conv_rhs => rw [hl, foldl_append, foldl_cons]

/-! ## A copy that catches up -/

variable {K V : Type} [DecidableEq K] {k k' : K} {v : V} {queue : List (K × V)} {source : K → V}
  {copy copy' : K → Option V}

/-- The last value that is to be passed on for a key. -/
def lastAbout (queue : List (K × V)) (k : K) : Option V :=
  queue.foldl (fun last p => if p.1 = k then some p.2 else last) none

theorem lastAbout_append (queue : List (K × V)) (k' : K) (v : V) (k : K) :
    lastAbout (queue ++ [(k', v)]) k = if k' = k then some v else lastAbout queue k := by
  rw [lastAbout, foldl_append]
  rfl

theorem foldl_last (queue : List (K × V)) (k : K) (last : Option V) :
    queue.foldl (fun last p => if p.1 = k then some p.2 else last) last =
      (lastAbout queue k).or last := by
  induction queue generalizing last with
  | nil => rfl
  | cons p queue ih =>
    rw [lastAbout, foldl_cons, foldl_cons, ih, ih, Option.or_assoc]
    congr 1
    split <;> rfl

theorem lastAbout_split (before after : List (K × V)) (k : K) :
    lastAbout (before ++ after) k = (lastAbout after k).or (lastAbout before k) := by
  rw [lastAbout, foldl_append]
  exact foldl_last after k _

theorem lastAbout_eq_none (h : ∀ p ∈ queue, p.1 ≠ k) : lastAbout queue k = none := by
  induction queue with
  | nil => rfl
  | cons p queue ih =>
    rw [lastAbout, foldl_cons, foldl_last, ih fun q hq => h q (.tail p hq), Option.none_or]
    exact if_neg (h p (.head _))

/-- What is passed on ends as the source's value, which the copy has with nothing left to pass on.
    -/
def CatchesUp (queue : List (K × V)) (source : K → V) (copy : K → Option V) : Prop :=
  ∀ k, match lastAbout queue k with
    | some v => v = source k
    | none => ∀ v, copy k = some v → v = source k

namespace CatchesUp

theorem of_last (h : CatchesUp queue source copy) (hlast : lastAbout queue k = some v) :
    v = source k := by
  have := h k
  rwa [hlast] at this

theorem of_none (h : CatchesUp queue source copy) (hlast : lastAbout queue k = none)
    (hv : copy k = some v) : v = source k := by
  have := h k
  rw [hlast] at this
  exact this v hv

/-- Nothing is to be passed on. -/
theorem eq (h : CatchesUp [] source copy) (hv : copy k = some v) : v = source k :=
  h.of_none rfl hv

/-- The source changes. -/
theorem write (h : CatchesUp queue source copy) (k : K) (v : V) :
    CatchesUp (queue ++ [(k, v)]) (update source k v) copy := by
  intro k'
  rw [lastAbout_append, update_apply]
  by_cases hk : k = k'
  · rw [if_pos hk, if_pos hk.symm]
  · rw [if_neg hk, if_neg (Ne.symm hk)]
    exact h k'

/-- The copy changes at most where it is set right, or will be. -/
theorem copied (h : CatchesUp queue source copy)
    (hcopy : ∀ k v, copy' k = some v → copy k = some v ∨ v = source k ∨ lastAbout queue k ≠ none) :
    CatchesUp queue source copy' := by
  intro k
  cases hlast : lastAbout queue k with
  | some v => exact h.of_last hlast
  | none =>
    intro v hv
    rcases hcopy k v hv with hold | hright | hpending
    · exact h.of_none hlast hold
    · exact hright
    · exact absurd hlast hpending

/-- A value is passed on, in turn. -/
theorem take {i : Nat} (h : CatchesUp queue source copy) (hget : queue[i]? = some (k, v))
    (hturn : InTurn (fun a b => a.1 = b.1) queue i)
    (hcopy : ∀ k' v', copy' k' = some v' → if k' = k then v' = v else copy k' = some v') :
    CatchesUp (queue.eraseIdx i) source copy' := by
  obtain ⟨hqueue, herase⟩ := split_of_getElem? hget
  -- Taking it away leaves the last value of each key, unless it was the last one itself.
  have hlast (k' : K) : lastAbout queue k' = (lastAbout (queue.eraseIdx i) k').or
      (if k = k' then some v else none) := by
    have hone : lastAbout ((k, v) :: queue.drop (i + 1)) k' =
        (lastAbout (queue.drop (i + 1)) k').or (if k = k' then some v else none) := by
      rw [lastAbout, foldl_cons, foldl_last]
    rw [herase, lastAbout_split, Option.or_assoc]
    conv_lhs => rw [hqueue, lastAbout_split, hone, Option.or_assoc]
    congr 1
    by_cases hk : k = k'
    · subst hk
      rw [lastAbout_eq_none fun p hp => hturn (k, v) hget p hp, Option.or_none, Option.none_or]
    · rw [if_neg hk, Option.or_none, Option.none_or]
  intro k'
  have hlast := hlast k'
  cases hrest : lastAbout (queue.eraseIdx i) k' with
  | some w =>
    rw [hrest, Option.some_or] at hlast
    exact h.of_last hlast
  | none =>
    intro v' hv'
    rw [hrest, Option.none_or] at hlast
    have hv' := hcopy k' v' hv'
    by_cases hk : k' = k
    · rw [if_pos hk] at hv'
      rw [if_pos hk.symm] at hlast
      exact hv'.trans (h.of_last hlast)
    · rw [if_neg hk] at hv'
      rw [if_neg (Ne.symm hk)] at hlast
      exact h.of_none hlast hv'

end CatchesUp

end Lib
