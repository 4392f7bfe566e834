import Mathlib.Algebra.BigOperators.Group.Finset.Basic
import Mathlib.Algebra.Order.BigOperators.Group.Finset
import Decibell.Lib.Run

/-!
# One fill at a time

The background tasks that seal a channel's keys for the viewers who lack them. At most one walks the
needs of a channel at a time: a task takes the flag `filling`, or sets `fillAgain` when it is taken
and leaves the walk to whoever has it. Each access to a flag is a step of its own.
-/

namespace Decibell

open Function Lib

/-! ## The tasks -/

/-- What a task does next. -/
inductive FillPc
  /-- Takes `filling`, or finds it taken. -/
  | entering
  /-- Sets `fillAgain`, and returns. -/
  | marking
  /-- Clears `fillAgain`. -/
  | clearing
  | starting
  /-- Ends its walk. -/
  | walking
  /-- Looks at `fillAgain` while it has `filling`. -/
  | checking
  /-- Gives `filling` back. -/
  | releasing
  /-- Looks at `fillAgain` once more. -/
  | recheck
  /-- Takes `filling` again, unless another task has it. -/
  | retaking
  | returned
deriving DecidableEq

/-- The task has the flag. -/
def FillPc.holds : FillPc → Bool
  | .clearing | .starting | .walking | .checking | .releasing => true
  | _ => false

/-- The task has given the flag back and may take it again. -/
def FillPc.looks : FillPc → Bool
  | .recheck | .retaking => true
  | _ => false

/-- A channel's flags, and the tasks, numbered by their calls. -/
structure FillState where
  filling : Bool := false
  fillAgain : Bool := false
  calls : Nat := 0
  pc : Nat → FillPc := fun _ => .returned
  /-- A walk has started since the call; for the history only. -/
  followed : Nat → Bool := fun _ => true

inductive FillAct
  | call
  | step (i : Nat)
deriving DecidableEq

namespace FillState

variable (st : FillState)

def goto (i : Nat) (pc : FillPc) : FillState := { st with pc := update st.pc i pc }

/-- A task is spawned. -/
def call : FillState :=
  { st.goto st.calls .entering with
    calls := st.calls + 1
    followed := update st.followed st.calls false }

/-- One step of a task. -/
def next (i : Nat) : FillState :=
  match st.pc i with
  | .entering =>
    if st.filling then st.goto i .marking else { st.goto i .clearing with filling := true }
  | .marking => { st.goto i .returned with fillAgain := true }
  | .clearing => { st.goto i .starting with fillAgain := false }
  | .starting => { st.goto i .walking with followed := fun _ => true }
  | .walking => st.goto i .checking
  | .checking => if st.fillAgain then st.goto i .clearing else st.goto i .releasing
  | .releasing => { st.goto i .recheck with filling := false }
  -- Asked for between that look and the release: it is this task's to walk, unless another took
  -- the flag since.
  | .recheck => if st.fillAgain then st.goto i .retaking else st.goto i .returned
  | .retaking =>
    if st.filling then st.goto i .returned else { st.goto i .clearing with filling := true }
  | .returned => st

def perform : FillAct → FillState
  | .call => st.call
  | .step i => st.next i

/-- Every task has returned. -/
def Quiet : Prop := ∀ i, st.pc i = .returned

/-- Somebody has the flag, or is still to look for it again. -/
def Looked : Prop := st.filling = true ∨ ∃ i, (st.pc i).looks = true

/-- A last look that finds nothing is not the last while a call that found the flag taken, and no
    walk followed, has to say so. -/
def Heard : FillAct → Prop
  | .step i => st.pc i = .recheck → st.fillAgain = false → st.filling = true ∨
      (∃ j, j ≠ i ∧ (st.pc j).looks = true) ∨ ∀ j, st.pc j = .marking → st.followed j = true
  | .call => True

end FillState

/-- The runs; a task that has returned takes no steps. -/
def fillSystem : System FillState FillAct where
  init st := st = {}
  step st a st' := (∀ i, a = .step i → st.pc i ≠ .returned) ∧ st' = st.perform a

/-! ## The invariant -/

/-- A call no walk has followed is to be told, somebody is to look, or a walk is about to start. -/
def FillState.Coming (st : FillState) (i : Nat) : Prop :=
  st.pc i = .entering ∨ (st.pc i = .marking ∨ st.fillAgain = true) ∧ st.Looked ∨
    ∃ j, st.pc j = .clearing ∨ st.pc j = .starting

structure FillInv (st : FillState) : Prop where
  fresh : ∀ i, st.calls ≤ i → st.pc i = .returned
  filling : st.filling = true ↔ ∃ i, (st.pc i).holds = true
  one : ∀ i j, (st.pc i).holds = true → (st.pc j).holds = true → i = j
  coming : ∀ i, st.followed i = false → st.Coming i

variable {st : FillState} {i : Nat}

namespace FillInv

theorem init : FillInv {} where
  fresh _ _ := rfl
  filling := ⟨nofun, fun ⟨_, h⟩ => nomatch h⟩
  one _ _ h := nomatch h
  coming _ h := nomatch h

theorem call (h : FillInv st) : FillInv st.call := by
  have hpc : st.pc st.calls = .returned := h.fresh _ (Nat.le_refl _)
  have hholds : ∀ i, (st.call.pc i).holds = (st.pc i).holds := by
    intro i
    change ((update st.pc st.calls .entering) i).holds = _
    rw [update_apply]
    split
    · next heq => rw [heq, hpc]; rfl
    · rfl
  refine ⟨fun i hi => ?_, ?_, fun i j hi hj => ?_, fun i hi => ?_⟩
  · exact (update_of_ne (Nat.ne_of_gt hi) ..).trans (h.fresh i (Nat.le_of_succ_le hi))
  · simp only [hholds]
    exact h.filling
  · rw [hholds] at hi hj
    exact h.one i j hi hj
  · by_cases heq : i = st.calls
    · exact .inl (heq ▸ update_self ..)
    · have hkept : ∀ j, st.pc j ≠ .returned → st.call.pc j = st.pc j := by
        intro j hj
        refine update_of_ne ?_ ..
        rintro rfl
        exact hj hpc
      have hlooked : st.Looked → st.call.Looked := by
        rintro (hfilling | ⟨j, hj⟩)
        · exact .inl hfilling
        · exact .inr ⟨j, by rw [hkept j (by rintro hr; rw [hr] at hj; cases hj)]; exact hj⟩
      have hpci : st.call.pc i = st.pc i := update_of_ne heq ..
      rcases h.coming i ((update_of_ne heq ..).symm.trans hi) with hin | ⟨hmark, hl⟩ | ⟨j, hj⟩
      · exact .inl (hpci.trans hin)
      · exact .inr (.inl ⟨hmark.imp_left hpci.trans, hlooked hl⟩)
      · refine .inr (.inr ⟨j, ?_⟩)
        rw [hkept j (by rintro hr; rw [hr] at hj; rcases hj with hj | hj <;> cases hj)]
        exact hj

/-! ### One step of a task -/

variable {pc : FillPc} {st' : FillState}

/-- Who has the flag after a task's step: as before, or it took it, or gave it back. -/
theorem holders (h : FillInv st) (hpc : st'.pc = update st.pc i pc)
    (hmoves : (st'.filling = st.filling ∧ pc.holds = (st.pc i).holds) ∨
      (st.filling = false ∧ st'.filling = true ∧ pc.holds = true) ∨
        ((st.pc i).holds = true ∧ st'.filling = false ∧ pc.holds = false)) :
    (st'.filling = true ↔ ∃ j, (st'.pc j).holds = true) ∧
      ∀ j k, (st'.pc j).holds = true → (st'.pc k).holds = true → j = k := by
  have hself : st'.pc i = pc := by rw [hpc, update_self]
  have hother : ∀ {j}, j ≠ i → st'.pc j = st.pc j := fun hj => by rw [hpc, update_of_ne hj]
  rcases hmoves with ⟨hfilling, hholds⟩ | ⟨hfree, hfilling, hholds⟩ | ⟨hhad, hfilling, hholds⟩
  · have hsame : ∀ j, (st'.pc j).holds = (st.pc j).holds := by
      intro j
      by_cases hj : j = i
      · rw [hj, hself, hholds]
      · rw [hother hj]
    simp only [hsame, hfilling]
    exact ⟨h.filling, h.one⟩
  · have hnone : ∀ j, (st.pc j).holds = false := by
      intro j
      refine Bool.eq_false_iff.2 fun hj => ?_
      rw [h.filling.2 ⟨j, hj⟩] at hfree
      cases hfree
    have honly : ∀ j, (st'.pc j).holds = true → j = i := by
      intro j hj
      by_contra hne
      rw [hother hne, hnone] at hj
      cases hj
    refine ⟨⟨fun _ => ⟨i, by rw [hself, hholds]⟩, fun _ => hfilling⟩, fun j k hj hk => ?_⟩
    rw [honly j hj, honly k hk]
  · have hnone : ∀ j, (st'.pc j).holds = false := by
      intro j
      by_cases hj : j = i
      · rw [hj, hself, hholds]
      · rw [hother hj]
        exact Bool.eq_false_iff.2 fun hk => hj (h.one j i hk hhad)
    simp only [hnone, hfilling]
    exact ⟨⟨nofun, fun ⟨_, hj⟩ => hj⟩, fun _ _ hj => nomatch hj⟩

theorem coming_kept {j : Nat} (hpc : st'.pc = update st.pc i pc) (hclearing : st.pc i ≠ .clearing)
    (hstarting : st.pc i ≠ .starting) (hij : j ≠ i ∨ st.pc i ≠ .entering ∧ st.pc i ≠ .marking)
    (hagain : st.fillAgain = true → st'.fillAgain = true) (hlooked : st.Looked → st'.Looked)
    (hj : st.Coming j) : st'.Coming j := by
  have hother : ∀ {k}, k ≠ i → st'.pc k = st.pc k := fun hk => by rw [hpc, update_of_ne hk]
  have hne : st.pc j = .entering ∨ st.pc j = .marking → j ≠ i := by
    rintro hjpc rfl
    rcases hij with hij | ⟨hentering, hmarking⟩
    · exact hij rfl
    · exact hjpc.elim hentering hmarking
  rcases hj with hin | ⟨hmark | hmark, hl⟩ | ⟨k, hk⟩
  · exact .inl ((hother (hne (.inl hin))).trans hin)
  · exact .inr (.inl ⟨.inl ((hother (hne (.inr hmark))).trans hmark), hlooked hl⟩)
  · exact .inr (.inl ⟨.inr (hagain hmark), hlooked hl⟩)
  · refine .inr (.inr ⟨k, ?_⟩)
    rw [hother]
    · exact hk
    · rintro rfl
      exact hk.elim hclearing hstarting

theorem fresh_kept (h : FillInv st) (hi : st.pc i ≠ .returned) (hpc : st'.pc = update st.pc i pc)
    (hcalls : st'.calls = st.calls) : ∀ j, st'.calls ≤ j → st'.pc j = .returned := by
  intro j hj
  rw [hcalls] at hj
  have hne : j ≠ i := by
    rintro rfl
    exact hi (h.fresh j hj)
  rw [hpc, update_of_ne hne]
  exact h.fresh j hj

theorem coming_starting {j : Nat} (hpc : st'.pc = update st.pc i pc)
    (hnow : pc = .clearing ∨ pc = .starting) : st'.Coming j :=
  .inr (.inr ⟨i, by rw [hpc, update_self]; exact hnow⟩)

theorem looked_kept (hpc : st'.pc = update st.pc i pc) (hfilling : st'.filling = st.filling)
    (hlooks : (st.pc i).looks = false) (hl : st.Looked) : st'.Looked := by
  rcases hl with htaken | ⟨k, hk⟩
  · exact .inl (hfilling.trans htaken)
  · refine .inr ⟨k, ?_⟩
    rw [hpc, update_of_ne]
    · exact hk
    · rintro rfl
      rw [hlooks] at hk
      cases hk

theorem looked_self (hpc : st'.pc = update st.pc i pc) (hlooks : pc.looks = true) : st'.Looked :=
  .inr ⟨i, by rw [hpc, update_self]; exact hlooks⟩

theorem moved (h : FillInv st) (hi : st.pc i ≠ .returned) (hpc : st'.pc = update st.pc i pc)
    (hcalls : st'.calls = st.calls)
    (hmoves : (st'.filling = st.filling ∧ pc.holds = (st.pc i).holds) ∨
      (st.filling = false ∧ st'.filling = true ∧ pc.holds = true) ∨
        ((st.pc i).holds = true ∧ st'.filling = false ∧ pc.holds = false))
    (hcoming : ∀ j, st'.followed j = false → st'.Coming j) : FillInv st' :=
  ⟨h.fresh_kept hi hpc hcalls, (h.holders hpc hmoves).1, (h.holders hpc hmoves).2, hcoming⟩

theorem coming_last {j : Nat} (h : FillInv st) (hpc : st.pc i = .recheck)
    (hagain : st.fillAgain = false) (hheard : st.Heard (.step i)) (hj : st.followed j = false) :
    (st.goto i .returned).Coming j := by
  have hkept : (st.Looked → (st.goto i .returned).Looked) → (st.goto i .returned).Coming j :=
    fun hlooked => coming_kept rfl (by rw [hpc]; decide) (by rw [hpc]; decide)
      (.inr (by rw [hpc]; decide)) id hlooked (h.coming j hj)
  rcases hheard hpc hagain with hfilling | ⟨k, hne, hk⟩ | hmarked
  · exact hkept fun _ => .inl hfilling
  · exact hkept fun _ => .inr ⟨k, (congrArg FillPc.looks (update_of_ne hne ..)).trans hk⟩
  · -- Nobody has still to ask: what is asked for is about to be walked.
    rcases h.coming j hj with hin | ⟨hmark | hmark, -⟩ | ⟨k, hk⟩
    · refine .inl ((update_of_ne ?_ ..).trans hin)
      rintro rfl
      rw [hpc] at hin
      cases hin
    · cases (hmarked j hmark).symm.trans hj
    · cases hagain.symm.trans hmark
    · refine .inr (.inr ⟨k, ?_⟩)
      change update st.pc i _ k = _ ∨ update st.pc i _ k = _
      rw [update_of_ne]
      · exact hk
      · rintro rfl
        rw [hpc] at hk
        rcases hk with hk | hk <;> cases hk

theorem coming_marked {j : Nat} (h : FillInv st) (hpc : st.pc i = .marking)
    (hj : st.followed j = false) :
    FillState.Coming { st.goto i .returned with fillAgain := true } j := by
  have hlooked : st.Looked → FillState.Looked { st.goto i .returned with fillAgain := true } :=
    looked_kept rfl rfl (by rw [hpc]; rfl)
  by_cases hji : j = i
  · subst hji
    rcases h.coming j hj with hin | ⟨-, hl⟩ | ⟨k, hk⟩
    · rw [hpc] at hin
      cases hin
    · exact .inr (.inl ⟨.inr rfl, hlooked hl⟩)
    · refine .inr (.inr ⟨k, ?_⟩)
      change update st.pc j _ k = _ ∨ update st.pc j _ k = _
      rw [update_of_ne]
      · exact hk
      · rintro rfl
        rw [hpc] at hk
        rcases hk with hk | hk <;> cases hk
  · exact coming_kept rfl (by rw [hpc]; decide) (by rw [hpc]; decide) (.inl hji) (fun _ => rfl)
      hlooked (h.coming j hj)

theorem next (h : FillInv st) (hi : st.pc i ≠ .returned) (hheard : st.Heard (.step i)) :
    FillInv (st.next i) := by
  unfold FillState.next
  split <;> rename_i hpc
  · -- `entering`
    split
    · next hfilling =>
      refine h.moved hi rfl rfl (.inl ⟨rfl, by rw [hpc]; rfl⟩) fun j hj => ?_
      by_cases hji : j = i
      · exact .inr (.inl ⟨.inl (hji ▸ update_self ..), .inl hfilling⟩)
      · exact coming_kept rfl (by rw [hpc]; decide) (by rw [hpc]; decide) (.inl hji) id
          (fun _ => .inl hfilling) (h.coming j hj)
    · next hfilling =>
      exact h.moved hi rfl rfl (.inr (.inl ⟨by simpa using hfilling, rfl, rfl⟩))
        fun j _ => coming_starting rfl (.inl rfl)
  · -- `marking`
    exact h.moved hi rfl rfl (.inl ⟨rfl, by rw [hpc]; rfl⟩) fun j hj => h.coming_marked hpc hj
  · -- `clearing`
    exact h.moved hi rfl rfl (.inl ⟨rfl, by rw [hpc]; rfl⟩) fun j _ => coming_starting rfl (.inr rfl)
  · -- `starting`: every call so far is followed
    exact h.moved hi rfl rfl (.inl ⟨rfl, by rw [hpc]; rfl⟩) fun j hj => nomatch hj
  · -- `walking`
    exact h.moved hi rfl rfl (.inl ⟨rfl, by rw [hpc]; rfl⟩) fun j hj => coming_kept rfl
      (by rw [hpc]; decide) (by rw [hpc]; decide) (.inr (by rw [hpc]; decide)) id
        (looked_kept rfl rfl (by rw [hpc]; rfl)) (h.coming j hj)
  · -- `checking`
    split
    · exact h.moved hi rfl rfl (.inl ⟨rfl, by rw [hpc]; rfl⟩)
        fun j _ => coming_starting rfl (.inl rfl)
    · exact h.moved hi rfl rfl (.inl ⟨rfl, by rw [hpc]; rfl⟩) fun j hj => coming_kept rfl
        (by rw [hpc]; decide) (by rw [hpc]; decide) (.inr (by rw [hpc]; decide)) id
          (looked_kept rfl rfl (by rw [hpc]; rfl)) (h.coming j hj)
  · -- `releasing`: it looks once more itself
    exact h.moved hi rfl rfl (.inr (.inr ⟨by rw [hpc]; rfl, rfl, rfl⟩)) fun j hj => coming_kept rfl
      (by rw [hpc]; decide) (by rw [hpc]; decide) (.inr (by rw [hpc]; decide)) id
        (fun _ => looked_self rfl rfl) (h.coming j hj)
  · -- `recheck`
    split
    · exact h.moved hi rfl rfl (.inl ⟨rfl, by rw [hpc]; rfl⟩) fun j hj => coming_kept rfl
        (by rw [hpc]; decide) (by rw [hpc]; decide) (.inr (by rw [hpc]; decide)) id
          (fun _ => looked_self rfl rfl) (h.coming j hj)
    · next hagain =>
      exact h.moved hi rfl rfl (.inl ⟨rfl, by rw [hpc]; rfl⟩)
        fun j hj => h.coming_last hpc (by simpa using hagain) hheard hj
  · -- `retaking`
    split
    · next hfilling =>
      exact h.moved hi rfl rfl (.inl ⟨rfl, by rw [hpc]; rfl⟩) fun j hj => coming_kept rfl
        (by rw [hpc]; decide) (by rw [hpc]; decide) (.inr (by rw [hpc]; decide)) id
          (fun _ => .inl hfilling) (h.coming j hj)
    · next hfilling =>
      exact h.moved hi rfl rfl (.inr (.inl ⟨by simpa using hfilling, rfl, rfl⟩))
        fun j _ => coming_starting rfl (.inl rfl)
  · exact absurd hpc hi

theorem of_reachable (h : (fillSystem.given FillState.Heard).Reachable st) : FillInv st := by
  refine System.reachable_invariant (I := FillInv) ?_ ?_ h
  · rintro _ rfl
    exact init
  · rintro st a _ hst ⟨⟨hlive, rfl⟩, hheard⟩
    cases a with
    | call => exact hst.call
    | step i => exact hst.next (hlive i rfl) hheard

end FillInv

/-! ## Tasks come to an end -/

/-- How many steps a task has left among so many; setting `fillAgain` may cost each of the others a
    walk. -/
def FillPc.left (tasks : Nat) (again : Bool) : FillPc → Nat
  | .entering => 7 * tasks + 12
  | .marking => 7 * tasks + 1
  | .clearing => 9
  | .starting => if again then 12 else 8
  | .walking => if again then 11 else 7
  | .checking => if again then 10 else 6
  | .releasing => if again then 12 else 5
  | .recheck => if again then 11 else 4
  | .retaking => 10
  | .returned => 0

namespace FillState

def left (st : FillState) : Nat :=
  ∑ i ∈ Finset.range st.calls, (st.pc i).left st.calls st.fillAgain

theorem left_le_of_clear (tasks : Nat) (again : Bool) (pc : FillPc) :
    pc.left tasks false ≤ pc.left tasks again := by
  cases again <;> cases pc <;> simp [FillPc.left]

theorem left_le_add (tasks : Nat) (again : Bool) (pc : FillPc) :
    pc.left tasks again ≤ pc.left tasks false + 7 := by
  cases again <;> cases pc <;> simp [FillPc.left]

theorem left_lt_of_kept {pc : FillPc} {st' : FillState} (hi : i < st.calls)
    (hpc : st'.pc = update st.pc i pc) (hcalls : st'.calls = st.calls)
    (hagain : st'.fillAgain = st.fillAgain ∨ st'.fillAgain = false)
    (hlt : pc.left st.calls st'.fillAgain < (st.pc i).left st.calls st.fillAgain) :
    st'.left < st.left := by
  unfold left
  rw [hcalls]
  refine Finset.sum_lt_sum (fun j _ => ?_) ⟨i, Finset.mem_range.2 hi, ?_⟩
  · by_cases hj : j = i
    · subst hj
      rw [hpc, update_self]
      exact Nat.le_of_lt hlt
    · rw [hpc, update_of_ne hj]
      rcases hagain with hsame | hclear
      · rw [hsame]
      · rw [hclear]
        exact left_le_of_clear _ _ _
  · rw [hpc, update_self]
    exact hlt

theorem left_lt_of_marking (hi : i < st.calls) (hpc : st.pc i = .marking) :
    left { st.goto i .returned with fillAgain := true } < st.left := by
  have hmem : i ∈ Finset.range st.calls := Finset.mem_range.2 hi
  change ∑ j ∈ Finset.range st.calls, (update st.pc i .returned j).left st.calls true <
    ∑ j ∈ Finset.range st.calls, (st.pc j).left st.calls st.fillAgain
  rw [← Finset.add_sum_erase _ _ hmem, ← Finset.add_sum_erase _ _ hmem]
  have hothers : ∑ j ∈ (Finset.range st.calls).erase i,
      (update st.pc i .returned j).left st.calls true ≤
        ∑ j ∈ (Finset.range st.calls).erase i, ((st.pc j).left st.calls st.fillAgain + 7) := by
    refine Finset.sum_le_sum fun j hj => ?_
    rw [update_of_ne (Finset.ne_of_mem_erase hj)]
    have hadd := left_le_add st.calls true (st.pc j)
    have hclear := left_le_of_clear st.calls st.fillAgain (st.pc j)
    omega
  have hmul : (st.calls - 1) • 7 = (st.calls - 1) * 7 := rfl
  rw [Finset.sum_add_distrib, Finset.sum_const, Finset.card_erase_of_mem hmem, Finset.card_range,
    hmul] at hothers
  rw [update_self, hpc]
  simp only [FillPc.left] at hothers ⊢
  omega

theorem left_next (hi : i < st.calls) (hlive : st.pc i ≠ .returned) :
    (st.next i).left < st.left := by
  unfold next
  split <;> rename_i hpc
  · split
    · exact left_lt_of_kept hi rfl rfl (.inl rfl) (by rw [hpc]; simp [FillPc.left])
    · refine left_lt_of_kept hi rfl rfl (.inl rfl) ?_
      rw [hpc]
      simp only [FillPc.left]
      omega
  · exact left_lt_of_marking hi hpc
  · exact left_lt_of_kept hi rfl rfl (.inr rfl) (by rw [hpc]; simp [FillPc.left])
  · refine left_lt_of_kept hi rfl rfl (.inl rfl) ?_
    rw [hpc]
    change FillPc.left st.calls st.fillAgain .walking < _
    cases st.fillAgain <;> simp [FillPc.left]
  · refine left_lt_of_kept hi rfl rfl (.inl rfl) ?_
    rw [hpc]
    change FillPc.left st.calls st.fillAgain .checking < _
    cases st.fillAgain <;> simp [FillPc.left]
  · split
    · next hagain => exact left_lt_of_kept hi rfl rfl (.inl rfl) (by rw [hpc]; simp [FillPc.left, hagain])
    · next hagain =>
      refine left_lt_of_kept hi rfl rfl (.inl rfl) ?_
      rw [hpc]
      change FillPc.left st.calls st.fillAgain .releasing < _
      simp [FillPc.left, hagain]
  · refine left_lt_of_kept hi rfl rfl (.inl rfl) ?_
    rw [hpc]
    change FillPc.left st.calls st.fillAgain .recheck < _
    cases st.fillAgain <;> simp [FillPc.left]
  · split
    · next hagain => exact left_lt_of_kept hi rfl rfl (.inl rfl) (by rw [hpc]; simp [FillPc.left, hagain])
    · next hagain =>
      exact left_lt_of_kept hi rfl rfl (.inl rfl) (by rw [hpc]; simp [FillPc.left, hagain])
  · split
    · exact left_lt_of_kept hi rfl rfl (.inl rfl) (by rw [hpc]; simp [FillPc.left])
    · exact left_lt_of_kept hi rfl rfl (.inl rfl) (by rw [hpc]; simp [FillPc.left])
  · exact absurd hpc hlive

/-- Only tasks that were spawned have anything to do. -/
def Fresh (st : FillState) : Prop := ∀ i, st.calls ≤ i → st.pc i = .returned

theorem Fresh.lt (h : st.Fresh) (hi : st.pc i ≠ .returned) : i < st.calls :=
  Nat.lt_of_not_le fun hle => hi (h i hle)

theorem calls_next : (st.next i).calls = st.calls := by
  unfold next
  split <;> first | rfl | (split <;> rfl)

theorem pc_next {j : Nat} (hj : j ≠ i) : (st.next i).pc j = st.pc j := by
  unfold next
  split <;> first | rfl | exact update_of_ne hj .. | (split <;> exact update_of_ne hj ..)

theorem Fresh.next (h : st.Fresh) (hi : st.pc i ≠ .returned) : (st.next i).Fresh := by
  intro j hj
  rw [calls_next] at hj
  have hne : j ≠ i := fun heq => Nat.not_lt_of_le (heq ▸ hj) (h.lt hi)
  rw [pc_next hne]
  exact h j hj

/-- A run without further calls is no longer than what the tasks have left. -/
theorem length_le_left {as : List FillAct} {st' : FillState} (h : st.Fresh)
    (hrun : fillSystem.Runs st as st') (hcalls : FillAct.call ∉ as) : as.length ≤ st.left := by
  induction hrun with
  | nil => exact Nat.zero_le _
  | @cons st t st' a as hstep _ ih =>
    obtain ⟨hlive, rfl⟩ := hstep
    cases a with
    | call => exact absurd (List.mem_cons_self ..) hcalls
    | step i =>
      have hlive := hlive i rfl
      have hrest := ih (h.next hlive) fun hmem => hcalls (List.mem_cons_of_mem _ hmem)
      exact Nat.lt_of_le_of_lt hrest (left_next (h.lt hlive) hlive)

end FillState

/-! ## Every call is followed by a walk -/

/-- In every run with no last look too early one task walks at a time, every call is followed by a
    walk once the tasks return, and they do: only so many steps are left. -/
theorem fills_not_lost (h : (fillSystem.given FillState.Heard).Reachable st) :
    (∀ i j, st.pc i = .walking → st.pc j = .walking → i = j) ∧
      (st.Quiet → ∀ i < st.calls, st.followed i = true) ∧
        ∃ n, ∀ as st', fillSystem.Runs st as st' → .call ∉ as → as.length ≤ n := by
  have hst := FillInv.of_reachable h
  refine ⟨fun i j hi hj => ?_, fun hquiet i _ => ?_, st.left, fun as st' => ?_⟩
  · exact hst.one i j (by rw [hi]; rfl) (by rw [hj]; rfl)
  · refine Bool.not_eq_false _ ▸ fun hlost => ?_
    have hnobody : ¬ st.Looked := by
      rintro (hfilling | ⟨j, hj⟩)
      · obtain ⟨j, hj⟩ := hst.filling.1 hfilling
        rw [hquiet j] at hj
        cases hj
      · rw [hquiet j] at hj
        cases hj
    rcases hst.coming i hlost with hin | ⟨-, hl⟩ | ⟨j, hj⟩
    · cases (hquiet i).symm.trans hin
    · exact hnobody hl
    · rw [hquiet j] at hj
      rcases hj with hj | hj <;> cases hj
  · exact FillState.length_le_left hst.fresh

def FillState.HeardRun (st : FillState) : List FillAct → Prop
  | [] => True
  | a :: as => ((∀ i, a = .step i → st.pc i ≠ .returned) ∧ st.Heard a) ∧ (st.perform a).HeardRun as

theorem FillState.reachable_heardRun {as : List FillAct}
    (h : (fillSystem.given FillState.Heard).Reachable st) (has : st.HeardRun as) :
    (fillSystem.given FillState.Heard).Reachable (as.foldl FillState.perform st) := by
  induction as generalizing st with
  | nil => exact h
  | cons a as ih => exact ih (.step a h ⟨⟨has.1.1, rfl⟩, has.1.2⟩) has.2

/-- The second call is heard before the first looks, which walks once more. -/
def saidInTime : List FillAct :=
  [.call] ++ List.replicate 4 (.step 0) ++ [.call, .step 1, .step 1] ++ List.replicate 7 (.step 0)

theorem fills_not_lost_saidInTime :
    let st := saidInTime.foldl FillState.perform {}
    (∀ i < st.calls, st.followed i = true) ∧ st.calls = 2 := by
  have hstep : ∀ (st : FillState) i, st.pc i ≠ .returned → st.pc i ≠ .recheck →
      (∀ j, FillAct.step i = .step j → st.pc j ≠ .returned) ∧ st.Heard (.step i) := by
    refine fun st i hlive hpc => ⟨?_, fun hrecheck => absurd hrecheck hpc⟩
    rintro _ ⟨⟩
    exact hlive
  have hcall : ∀ st : FillState, (∀ j, FillAct.call = .step j → st.pc j ≠ .returned) ∧
      st.Heard .call := fun _ => ⟨nofun, trivial⟩
  refine ⟨(fills_not_lost (FillState.reachable_heardRun (.init rfl) ?_)).2.1 fun i => ?_, rfl⟩
  · refine ⟨hcall _, hstep _ _ (by decide) (by decide), hstep _ _ (by decide) (by decide),
      hstep _ _ (by decide) (by decide), hstep _ _ (by decide) (by decide), hcall _,
      hstep _ _ (by decide) (by decide), hstep _ _ (by decide) (by decide),
      hstep _ _ (by decide) (by decide), hstep _ _ (by decide) (by decide),
      hstep _ _ (by decide) (by decide), hstep _ _ (by decide) (by decide),
      hstep _ _ (by decide) (by decide), hstep _ _ (by decide) (by decide), ⟨?_, ?_⟩, trivial⟩
    · rintro _ ⟨⟩
      decide
    · -- Nobody is still to say anything.
      refine fun _ _ => .inr (.inr fun j hj => ?_)
      match j with
      | 0 => cases hj
      | 1 => cases hj
      | _ + 2 => cases hj
  · match i with
    | 0 => rfl
    | 1 => rfl
    | _ + 2 => rfl

/-- In every run each call is followed by a walk once the tasks return. -/
def NeverLost : Prop :=
  ∀ st, fillSystem.Reachable st → st.Quiet → ∀ i < st.calls, st.followed i = true

/-- The steps of a run, none of them of a task that has returned. -/
def FillState.run (st : FillState) : List FillAct → Option FillState
  | [] => some st
  | .call :: as => st.call.run as
  | .step i :: as => if st.pc i = .returned then none else (st.next i).run as

theorem FillState.runs_run {as : List FillAct} {st' : FillState} (h : st.run as = some st') :
    fillSystem.Runs st as st' := by
  induction as generalizing st with
  | nil =>
    cases h
    exact .nil _
  | cons a as ih =>
    cases a with
    | call => exact .cons ⟨nofun, rfl⟩ (ih h)
    | step i =>
      unfold FillState.run at h
      split at h
      · cases h
      · next hlive =>
        refine .cons ⟨fun j hj => ?_, rfl⟩ (ih h)
        cases hj
        exact hlive

/-- The second call says so once the first has looked for the last time. -/
def saidTooLate : List FillAct :=
  [.call] ++ List.replicate 4 (.step 0) ++ [.call, .step 1] ++ List.replicate 3 (.step 0) ++ [.step 1]

/-- It is missed: nobody walks any more. -/
theorem not_neverLost : ¬ NeverLost := by
  intro h
  obtain ⟨st, hst⟩ : ∃ st, FillState.run {} saidTooLate = some st := ⟨_, rfl⟩
  have hquiet : st.Quiet := by
    cases hst
    intro i
    match i with
    | 0 => rfl
    | 1 => rfl
    | _ + 2 => rfl
  have hlost : 1 < st.calls ∧ st.followed 1 = false := by
    cases hst
    exact ⟨by decide, rfl⟩
  have hfollowed := h st (.of_runs (.init rfl) (FillState.runs_run hst)) hquiet 1 hlost.1
  cases hlost.2.symm.trans hfollowed

end Decibell
