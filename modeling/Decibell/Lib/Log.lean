import Mathlib.Tactic.Common

/-!
# Logs of events

A log lists the events of a run, the last one first. `EachAfter P`: every event has a property that
depends on what came before it. `FollowedBy p q`: every event of the kind `p` has since been
followed by one of the kind `q`; `Since P q`: some event with `P` was not.
-/

namespace Lib

open List

variable {ε : Type}

/-- Every event has the property `P` of the log before it. -/
def EachAfter (P : List ε → ε → Prop) : List ε → Prop
  | [] => True
  | e :: past => P past e ∧ EachAfter P past

/-- Every event of the kind `p` is followed by one of the kind `q`. -/
def FollowedBy (p q : ε → Prop) : List ε → Prop
  | [] => True
  | e :: past => ¬ p e ∧ (q e ∨ FollowedBy p q past)

/-- An event has `P` of the log before it, and none of the kind `q` came after. -/
def Since (P : List ε → ε → Prop) (q : ε → Prop) : List ε → Prop
  | [] => False
  | e :: past => P past e ∨ (¬ q e ∧ Since P q past)

instance Since.decidable {P : List ε → ε → Prop} {q : ε → Prop} [∀ past e, Decidable (P past e)]
    [DecidablePred q] : (log : List ε) → Decidable (Since P q log)
  | [] => inferInstanceAs (Decidable False)
  | _ :: past =>
    have := Since.decidable (P := P) (q := q) past
    inferInstanceAs (Decidable (_ ∨ _))

variable {P P' : List ε → ε → Prop} {p q q' : ε → Prop} {log past : List ε} {e : ε}

theorem eachAfter_iff :
    EachAfter P log ↔ ∀ later e past, log = later ++ e :: past → P past e := by
  induction log with
  | nil => simp [EachAfter]
  | cons e log ih =>
    rw [EachAfter, ih]
    constructor
    · rintro ⟨he, h⟩ later e' past hlog
      rcases later with _ | ⟨_, later⟩
      · cases hlog
        exact he
      · cases hlog
        exact h later e' past rfl
    · intro h
      exact ⟨h [] e log rfl, fun later e' past hlog => h (e :: later) e' past (by rw [hlog]; rfl)⟩

theorem since_iff : Since P q log ↔
    ∃ later e past, log = later ++ e :: past ∧ P past e ∧ ∀ e' ∈ later, ¬ q e' := by
  induction log with
  | nil => simp [Since]
  | cons e log ih =>
    rw [Since, ih]
    constructor
    · rintro (hP | ⟨hq, later, e', past, rfl, hP, hlater⟩)
      · exact ⟨[], e, log, rfl, hP, nofun⟩
      · exact ⟨e :: later, e', past, rfl, hP, forall_mem_cons.2 ⟨hq, hlater⟩⟩
    · rintro ⟨later, e', past, hlog, hP, hlater⟩
      rcases later with _ | ⟨_, later⟩
      · cases hlog
        exact .inl hP
      · cases hlog
        obtain ⟨hq, hlater⟩ := forall_mem_cons.1 hlater
        exact .inr ⟨hq, later, e', past, rfl, hP, hlater⟩

theorem EachAfter.cons (h : EachAfter P past) (he : P past e) : EachAfter P (e :: past) :=
  ⟨he, h⟩

theorem FollowedBy.cons (h : FollowedBy p q past) (he : ¬ p e) : FollowedBy p q (e :: past) :=
  ⟨he, .inr h⟩

theorem FollowedBy.append {new : List ε} (h : FollowedBy p q past) (hnew : ∀ e ∈ new, ¬ p e) :
    FollowedBy p q (new ++ past) := by
  induction new with
  | nil => exact h
  | cons e new ih =>
    exact (ih fun e he => hnew e (mem_cons_of_mem _ he)).cons (hnew e mem_cons_self)

theorem EachAfter.append {new : List ε} (h : EachAfter P past)
    (hnew : ∀ e ∈ new, ∀ log, P log e) : EachAfter P (new ++ past) := by
  induction new with
  | nil => exact h
  | cons e new ih =>
    exact (ih fun e he => hnew e (mem_cons_of_mem _ he)).cons (hnew e mem_cons_self _)

/-- An event of the kind `q` follows whatever came before it. -/
theorem FollowedBy.of_event (hp : ¬ p e) (hq : q e) : FollowedBy p q (e :: past) :=
  ⟨hp, .inl hq⟩

theorem FollowedBy.mono (h : FollowedBy p q log) (hq : ∀ e, q e → q' e) : FollowedBy p q' log := by
  induction log with
  | nil => trivial
  | cons e log ih => exact ⟨h.1, h.2.imp (hq e) ih⟩

end Lib
