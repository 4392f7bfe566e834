import Mathlib.Tactic.Common

/-!
# Hoare triples of state programs

A program of `StateM σ` maps the state it starts in to a value and the state it ends in. The triple
`Triple P m Q` says that from every state satisfying `P` the program `m` ends with a value and a
state satisfying `Q`; there is one rule per way a program is put together.
-/

namespace Lib

variable {σ α β : Type}

/-! ## Running a program -/

theorem run_bind (m : StateM σ α) (f : α → StateM σ β) (s : σ) :
    (m >>= f).run s = (f (m.run s).1).run (m.run s).2 := rfl

theorem run_allM_cons (step : β → StateM σ Bool) (b : β) (l : List β) (s : σ) :
    ((b :: l).allM step).run s =
      if ((step b).run s).1 then (l.allM step).run ((step b).run s).2
      else (false, ((step b).run s).2) := by
  rw [List.allM, run_bind]
  cases ((step b).run s).1 <;> rfl

/-! ## Triples -/

/-- From a state with `P` the program ends with a value and `Q`. -/
def Triple (P : σ → Prop) (m : StateM σ α) (Q : α → σ → Prop) : Prop :=
  ∀ s, P s → Q (m.run s).1 (m.run s).2

namespace Triple

variable {P P' : σ → Prop} {Q Q' : α → σ → Prop} {R : β → σ → Prop} {m : StateM σ α}

theorem pure {a : α} (h : ∀ s, P s → Q a s) : Triple P (Pure.pure a) Q := h

theorem bind {f : α → StateM σ β} (hm : Triple P m Q) (hf : ∀ a, Triple (Q a) (f a) R) :
    Triple P (m >>= f) R :=
  fun s hs => hf _ _ (hm s hs)

theorem conseq (hm : Triple P m Q) (hP : ∀ s, P' s → P s) (hQ : ∀ a s, Q a s → Q' a s) :
    Triple P' m Q' :=
  fun s hs => hQ _ _ (hm s (hP s hs))

theorem get_bind {f : σ → StateM σ β} (hf : ∀ s, P s → Triple P (f s) R) :
    Triple P (MonadState.get >>= f) R :=
  fun s hs => hf s hs s hs

theorem pure_bind {a : α} {f : α → StateM σ β} (hf : Triple P (f a) R) :
    Triple P (Pure.pure a >>= f) R := hf

/-- The result of the first part is known. -/
theorem bind_eq {a : α} {S : σ → Prop} {f : α → StateM σ β} (hm : Triple P m fun b s => b = a ∧ S s)
    (hf : Triple S (f a) R) : Triple P (m >>= f) R :=
  hm.bind fun _ s ⟨hb, hs⟩ => hb ▸ hf s hs

theorem of_exists {ι : Sort*} {P : ι → σ → Prop} (h : ∀ i, Triple (P i) m Q) :
    Triple (fun s => ∃ i, P i s) m Q :=
  fun s ⟨i, hs⟩ => h i s hs

theorem of_and {c : Prop} (h : c → Triple P m Q) : Triple (fun s => c ∧ P s) m Q :=
  fun s hs => h hs.1 s hs.2

theorem ite {c : Prop} [Decidable c] {m₁ m₂ : StateM σ α} (h₁ : c → Triple P m₁ Q)
    (h₂ : ¬c → Triple P m₂ Q) : Triple P (if c then m₁ else m₂) Q := by
  split
  · exact h₁ ‹_›
  · exact h₂ ‹_›

end Triple

/-! ## Invariants -/

/-- The program `m` keeps the invariant `I`. -/
def Keeps (I : σ → Prop) (m : StateM σ α) : Prop := Triple I m fun _ => I

namespace Keeps

variable {I : σ → Prop} {m : StateM σ α}

theorem pure {a : α} : Keeps I (Pure.pure a) := fun _ => id

theorem bind {f : α → StateM σ β} (hm : Keeps I m) (hf : ∀ a, Keeps I (f a)) :
    Keeps I (m >>= f) :=
  Triple.bind hm hf

theorem seq {f : α → StateM σ β} {Q : β → σ → Prop} (hm : Keeps I m)
    (hf : ∀ a, Triple I (f a) Q) : Triple I (m >>= f) Q :=
  Triple.bind hm hf

theorem ite {c : Prop} [Decidable c] {m₁ m₂ : StateM σ α} (h₁ : Keeps I m₁) (h₂ : Keeps I m₂) :
    Keeps I (if c then m₁ else m₂) :=
  Triple.ite (fun _ => h₁) fun _ => h₂

/-- A loop that stops at the first step that reports failure. -/
theorem allM {step : β → StateM σ Bool} {l : List β} (h : ∀ b ∈ l, Keeps I (step b)) :
    Keeps I (l.allM step) := by
  induction l with
  | nil => exact pure
  | cons b l ih =>
    refine bind (h b (.head l)) fun ok => ?_
    cases ok with
    | false => exact pure
    | true => exact ih fun c hc => h c (.tail b hc)

end Keeps
end Lib
