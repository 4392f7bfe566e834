import Mathlib.Data.List.Nodup
import Mathlib.Tactic.Common

/-!
# Repairing losses by parity

A parity of some values is their sum under an operation under which every value is its own inverse,
such as XOR. With the parity of a group, one lost value of it is the sum of the parity and the other
values (`Parity.foldl_others`).
-/

namespace Lib

open List

/-- An operation under which every value is its own inverse. -/
structure Parity {α : Type} (op : α → α → α) (zero : α) : Prop where
  comm : ∀ a b, op a b = op b a
  assoc : ∀ a b c, op (op a b) c = op a (op b c)
  zero_op : ∀ a, op zero a = a
  self : ∀ a, op a a = zero

namespace Parity

variable {α β ι : Type} {op : α → α → α} {zero : α} {op' : β → β → β} {zero' : β}

theorem op_zero (h : Parity op zero) (a : α) : op a zero = a := by
  rw [h.comm, h.zero_op]

/-- What is added twice is not there. -/
theorem cancel (h : Parity op zero) (a b : α) : op a (op a b) = b := by
  rw [← h.assoc, h.self, h.zero_op]

/-- Values at every place of an index. -/
theorem pi (h : Parity op zero) :
    Parity (fun (f g : ι → α) i => op (f i) (g i)) (fun _ => zero) where
  comm f g := funext fun i => h.comm (f i) (g i)
  assoc f g k := funext fun i => h.assoc (f i) (g i) (k i)
  zero_op f := funext fun i => h.zero_op (f i)
  self f := funext fun i => h.self (f i)

theorem prod (h : Parity op zero) (h' : Parity op' zero') :
    Parity (fun (p q : α × β) => (op p.1 q.1, op' p.2 q.2)) (zero, zero') where
  comm _ _ := Prod.ext (h.comm _ _) (h'.comm _ _)
  assoc _ _ _ := Prod.ext (h.assoc _ _ _) (h'.assoc _ _ _)
  zero_op _ := Prod.ext (h.zero_op _) (h'.zero_op _)
  self _ := Prod.ext (h.self _) (h'.self _)

theorem foldl_eq (h : Parity op zero) (f : ι → α) (l : List ι) (a : α) :
    l.foldl (fun r i => op r (f i)) a = op a (l.foldl (fun r i => op r (f i)) zero) := by
  induction l generalizing a with
  | nil => exact (h.op_zero a).symm
  | cons i l ih => rw [foldl_cons, foldl_cons, ih, ih (op zero (f i)), h.zero_op, h.assoc]

variable [DecidableEq ι]

/-- The sum of a group, with all but one of its values added again. -/
theorem foldl_others (h : Parity op zero) (f : ι → α) {l : List ι} (hl : l.Nodup) {m : ι}
    (hm : m ∈ l) :
    (l.filter (· ≠ m)).foldl (fun r i => op r (f i)) (l.foldl (fun r i => op r (f i)) zero) =
      f m := by
  rw [h.foldl_eq]
  induction l with
  | nil => cases hm
  | cons i l ih =>
    obtain ⟨hi, hl⟩ := nodup_cons.1 hl
    rw [foldl_cons, h.zero_op, h.foldl_eq]
    rcases mem_cons.1 hm with rfl | hm
    · -- It is the first one, and the others are all added again.
      have hrest : (m :: l).filter (· ≠ m) = l := by
        rw [filter_cons_of_neg (by simp), filter_eq_self]
        exact fun j hj => decide_eq_true fun hjm => hi (hjm ▸ hj)
      rw [hrest, h.assoc, h.self, h.op_zero]
    · have hne : i ≠ m := fun him => hi (him ▸ hm)
      rw [filter_cons_of_pos (by simpa using hne), foldl_cons, h.zero_op,
        h.foldl_eq f _ (f i), h.assoc, h.comm (f i) (op _ _), h.assoc, h.assoc,
        h.comm _ (f i), h.cancel]
      exact ih hl hm

end Parity

/-! ## Repairs -/

section Repairs

variable {ι γ : Type} {members : γ → List ι} {there : ι → Prop} {parity : γ → Prop}

/-- What is there, or can be repaired step by step. -/
inductive Repairable (members : γ → List ι) (there : ι → Prop) (parity : γ → Prop) : ι → Prop
  | there {i : ι} (h : there i) : Repairable members there parity i
  /-- The only loss of a group whose parity is there. -/
  | repaired {g : γ} {i : ι} (hg : parity g) (hi : i ∈ members g)
      (h : ∀ j ∈ members g, j ≠ i → Repairable members there parity j) :
      Repairable members there parity i

theorem Repairable.mono {there' : ι → Prop} {parity' : γ → Prop} (hthere : ∀ i, there i → there' i)
    (hparity : ∀ g, parity g → parity' g) {i : ι} (h : Repairable members there parity i) :
    Repairable members there' parity' i := by
  induction h with
  | there h => exact .there (hthere _ h)
  | repaired hg hi _ ih => exact .repaired (hparity _ hg) hi ih

/-- What was repaired as far as it goes has all that can be. -/
theorem Repairable.of_closed {P : ι → Prop} (hthere : ∀ i, there i → P i)
    (hclosed : ∀ g, parity g → ∀ i ∈ members g, (∀ j ∈ members g, j ≠ i → P j) → P i) {i : ι}
    (h : Repairable members there parity i) : P i := by
  induction h with
  | there h => exact hthere _ h
  | repaired hg hi _ ih => exact hclosed _ hg _ hi ih

end Repairs

end Lib
