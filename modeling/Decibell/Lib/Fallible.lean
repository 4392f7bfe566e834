import Mathlib.Tactic.Common

/-!
# Programs that may fail

A program of `Fallible ε σ` changes a state and ends with a value or with an error; what it did to
the state before it failed stays. `Ends P m Q E` is its triple: from a state satisfying `P` the
program ends with a value and a state satisfying `Q`, or with an error and a state satisfying `E`.
-/

namespace Lib

/-- Programs on states `σ` that may end with an error. -/
abbrev Fallible (ε σ : Type) := ExceptT ε (StateM σ)

variable {ε σ α β : Type}

/-- Runs a program. -/
def Fallible.exec (m : Fallible ε σ α) (s : σ) : Except ε α × σ := m.run.run s

theorem Fallible.exec_bind (m : Fallible ε σ α) (f : α → Fallible ε σ β) (s : σ) :
    Fallible.exec (m >>= f) s =
      match Fallible.exec m s with
      | (.ok a, s') => Fallible.exec (f a) s'
      | (.error e, s') => (.error e, s') := by
  change (StateT.run (ExceptT.bindCont f (Fallible.exec m s).1) (Fallible.exec m s).2) = _
  rcases Fallible.exec m s with ⟨_ | a, s'⟩
  · rfl
  · rfl

/-- What holds after a program ended in a certain way. -/
def After (Q : α → σ → Prop) (E : ε → σ → Prop) : Except ε α × σ → Prop
  | (.ok a, s) => Q a s
  | (.error e, s) => E e s

/-- From a state with `P` the program ends with a value and `Q`, or an error and `E`. -/
def Ends (P : σ → Prop) (m : Fallible ε σ α) (Q : α → σ → Prop) (E : ε → σ → Prop) : Prop :=
  ∀ s, P s → After Q E (Fallible.exec m s)

namespace Ends

variable {P P' : σ → Prop} {Q Q' : α → σ → Prop} {R : β → σ → Prop} {E E' : ε → σ → Prop}
  {m : Fallible ε σ α}

theorem pure {a : α} (h : ∀ s, P s → Q a s) : Ends P (Pure.pure a) Q E := h

theorem throw {e : ε} (h : ∀ s, P s → E e s) : Ends P (throw e) Q E := h

theorem set {s' : σ} {Q : PUnit → σ → Prop} (h : ∀ s, P s → Q ⟨⟩ s') : Ends P (set s') Q E := h

theorem modify {f : σ → σ} {Q : PUnit → σ → Prop} (h : ∀ s, P s → Q ⟨⟩ (f s)) :
    Ends P (modify f) Q E := h

theorem bind {f : α → Fallible ε σ β} (hm : Ends P m Q E) (hf : ∀ a, Ends (Q a) (f a) R E) :
    Ends P (m >>= f) R E := by
  intro s hs
  have hend := hm s hs
  rw [Fallible.exec_bind]
  rcases h : Fallible.exec m s with ⟨_ | a, s'⟩
  · rw [h] at hend
    exact hend
  · rw [h] at hend
    exact hf a s' hend

theorem conseq (hm : Ends P m Q E) (hP : ∀ s, P' s → P s) (hQ : ∀ a s, Q a s → Q' a s)
    (hE : ∀ e s, E e s → E' e s) : Ends P' m Q' E' := by
  intro s hs
  have hend := hm s (hP s hs)
  rcases h : Fallible.exec m s with ⟨e | a, s'⟩
  · rw [h] at hend
    exact hE e s' hend
  · rw [h] at hend
    exact hQ a s' hend

theorem get_bind {f : σ → Fallible ε σ β} (hf : ∀ s, P s → Ends (· = s) (f s) R E) :
    Ends P (MonadState.get >>= f) R E :=
  fun s hs => hf s hs s rfl

theorem ite {c : Prop} [Decidable c] {m₁ m₂ : Fallible ε σ α} (h₁ : c → Ends P m₁ Q E)
    (h₂ : ¬ c → Ends P m₂ Q E) : Ends P (if c then m₁ else m₂) Q E := by
  split
  · next h => exact h₁ h
  · next h => exact h₂ h

/-- A loop over a list. -/
theorem forM {f : β → Fallible ε σ PUnit} {l : List β} {I : List β → σ → Prop}
    (h : ∀ done b rest, l = done ++ b :: rest →
      Ends (I done) (f b) (fun _ => I (done ++ [b])) E) :
    Ends (I []) (l.forM f) (fun _ => I l) E := by
  have hfrom : ∀ done rest, l = done ++ rest →
      Ends (I done) (rest.forM f) (fun _ => I l) E := by
    intro done rest hl
    induction rest generalizing done with
    | nil =>
      rw [List.append_nil] at hl
      exact pure fun s hs => hl ▸ hs
    | cons b rest ih =>
      refine (h done b rest hl).bind fun _ => ih (done ++ [b]) ?_
      rw [hl, List.append_assoc]
      rfl
  exact hfrom [] l rfl

end Ends

end Lib
