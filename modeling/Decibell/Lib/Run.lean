import Mathlib.Tactic.Common

/-!
# Runs of a system

A system has initial states and labelled steps. `Reachable` are the states of its runs, and
`reachable_invariant` is the rule for an invariant. `given C` is the system whose runs are those in
which every step meets a condition on its label and the state before it.
-/

namespace Lib

/-- A transition system with labels `α`. -/
structure System (σ α : Type) where
  /-- The states a run may start in. -/
  init : σ → Prop
  /-- The steps. -/
  step : σ → α → σ → Prop

namespace System

variable {σ α : Type} {S : System σ α} {C : σ → α → Prop}

/-- The states of the runs of a system. -/
inductive Reachable (S : System σ α) : σ → Prop
  /-- An initial state. -/
  | init {s : σ} (h : S.init s) : S.Reachable s
  /-- The state after one more step. -/
  | step {s s' : σ} (a : α) (h : S.Reachable s) (hs : S.step s a s') : S.Reachable s'

/-- The runs in which every step meets a condition. -/
def given (S : System σ α) (C : σ → α → Prop) : System σ α where
  init := S.init
  step s a s' := S.step s a s' ∧ C s a

/-- What holds initially and is kept by every step holds in every run. -/
theorem reachable_invariant {I : σ → Prop} (hinit : ∀ s, S.init s → I s)
    (hstep : ∀ s a s', I s → S.step s a s' → I s') {s : σ} (hs : S.Reachable s) : I s := by
  induction hs with
  | init h => exact hinit _ h
  | step a _ hs ih => exact hstep _ a _ ih hs

/-- A run that meets a condition is a run. -/
theorem Reachable.of_given {s : σ} (h : (S.given C).Reachable s) : S.Reachable s := by
  induction h with
  | init h => exact .init h
  | step a _ hs ih => exact .step a ih hs.1

/-- A condition that always holds is met by every run. -/
theorem Reachable.given_of_forall (hC : ∀ s a, C s a) {s : σ} (h : S.Reachable s) :
    (S.given C).Reachable s := by
  induction h with
  | init h => exact .init h
  | step a _ hs ih => exact .step a ih ⟨hs, hC _ a⟩

theorem Reachable.given_mono {C' : σ → α → Prop} (hC : ∀ s a, C s a → C' s a) {s : σ}
    (h : (S.given C).Reachable s) : (S.given C').Reachable s := by
  induction h with
  | init h => exact .init h
  | step a _ hs ih => exact .step a ih ⟨hs.1, hC _ a hs.2⟩

theorem Reachable.foldl {f : σ → α → σ} (hf : ∀ s a, S.step s a (f s a)) (as : List α) {s : σ}
    (hs : S.Reachable s) : S.Reachable (as.foldl f s) := by
  induction as generalizing s with
  | nil => exact hs
  | cons a as ih => exact ih (.step a hs (hf s a))

/-- Each label meets the condition where its turn comes. -/
def Meets (f : σ → α → σ) (C : σ → α → Prop) : σ → List α → Prop
  | _, [] => True
  | s, a :: as => C s a ∧ Meets f C (f s a) as

instance decidableMeets (f : σ → α → σ) (C : σ → α → Prop) [∀ s a, Decidable (C s a)] :
    (s : σ) → (as : List α) → Decidable (Meets f C s as)
  | _, [] => .isTrue trivial
  | s, a :: as =>
    have := decidableMeets f C (f s a) as
    inferInstanceAs (Decidable (C s a ∧ Meets f C (f s a) as))

theorem Reachable.foldl_given {f : σ → α → σ} (hf : ∀ s a, S.step s a (f s a)) {as : List α} {s : σ}
    (hs : (S.given C).Reachable s) (h : Meets f C s as) :
    (S.given C).Reachable (as.foldl f s) := by
  induction as generalizing s with
  | nil => exact hs
  | cons a as ih => exact ih (.step a hs ⟨hf s a, h.1⟩) h.2

/-- The runs from a state, with the labels of their steps. -/
inductive Runs (S : System σ α) : σ → List α → σ → Prop
  /-- No step. -/
  | nil (s : σ) : S.Runs s [] s
  /-- One step, and then a run. -/
  | cons {s s' s'' : σ} {a : α} {as : List α} (hs : S.step s a s') (h : S.Runs s' as s'') :
      S.Runs s (a :: as) s''

theorem Reachable.of_runs {s s' : σ} {as : List α} (hs : S.Reachable s) (h : S.Runs s as s') :
    S.Reachable s' := by
  induction h with
  | nil => exact hs
  | cons hstep _ ih => exact ih (.step _ hs hstep)

/-- Labels a partial function makes steps of, in turn, are a run. -/
theorem Runs.of_foldlM {f : σ → α → Option σ} (hf : ∀ s a s', f s a = some s' → S.step s a s')
    {s s' : σ} {as : List α} (h : as.foldlM f s = some s') : S.Runs s as s' := by
  induction as generalizing s with
  | nil => exact Option.some.inj h ▸ .nil s
  | cons a as ih =>
    rw [List.foldlM_cons] at h
    obtain ⟨t, ht, h⟩ := Option.bind_eq_some_iff.1 h
    exact .cons (hf s a t ht) (ih h)

theorem Reachable.of_foldlM {f : σ → α → Option σ} (hf : ∀ s a s', f s a = some s' → S.step s a s')
    {s : σ} (hs : S.Reachable s) {as : List α} (h : (as.foldlM f s).isSome) :
    S.Reachable ((as.foldlM f s).get h) :=
  hs.of_runs (.of_foldlM hf (Option.some_get h).symm)

variable {τ β : Type} {T : System τ β}

/-- Runs of a system go through a part's states, if each step is a run there. -/
theorem Reachable.project (view : σ → τ) (hinit : ∀ s, S.init s → T.init (view s))
    (hstep : ∀ s a s', S.step s a s' → ∃ bs, T.Runs (view s) bs (view s')) {s : σ}
    (hs : S.Reachable s) : T.Reachable (view s) := by
  induction hs with
  | init h => exact .init (hinit _ h)
  | step a _ h ih =>
    obtain ⟨bs, hruns⟩ := hstep _ a _ h
    exact ih.of_runs hruns

theorem Runs.kept {I : σ → Prop} (hkept : ∀ s a s', I s → S.step s a s' → I s')
    {s s' : σ} {as : List α} (h : S.Runs s as s') (hs : I s) : I s' := by
  induction h with
  | nil => exact hs
  | cons hstep _ ih => exact ih (hkept _ _ _ hs hstep)

/-- A goal kept once reached, and a rank no step raises and steps of the kind `p` lower: a run with
    more of these reaches the goal. -/
theorem Runs.of_rank (I goal : σ → Prop) (rank : σ → Nat) (p : α → Bool)
    (hkept : ∀ s a s', I s → S.step s a s' → I s')
    (hgoal : ∀ s a s', S.step s a s' → goal s → goal s')
    (hrank : ∀ s a s', I s → S.step s a s' → ¬ goal s' → rank s' + (if p a then 1 else 0) ≤ rank s)
    {s s' : σ} {as : List α} (hs : I s) (h : S.Runs s as s') (henough : rank s < as.countP p) :
    goal s' := by
  induction h with
  | nil => exact absurd henough (Nat.not_lt_zero _)
  | @cons s t s' a as hstep h ih =>
    by_cases hreached : goal t
    · exact h.kept (fun s a s' hs hstep => hgoal s a s' hstep hs) hreached
    · refine ih (hkept s a t hs hstep) ?_
      have hlower := hrank s a t hs hstep hreached
      rw [List.countP_cons] at henough
      omega

end System
end Lib
