import Decibell.Lib.Triple

/-!
# A connection to a transactional store

One connection to a store of contents `T`, as a program sees it that issues statements, opens a
transaction, commits it or rolls it back.
-/

namespace Lib

open List Option

variable {T : Type}

/-- How the store answers a statement. -/
inductive Outcome
  /-- It runs. -/
  | ok
  /-- It fails and changes nothing. -/
  | fail
  /-- It fails and the open transaction is undone. -/
  | abort
  deriving DecidableEq, Repr

/-- How the store answers a query. -/
inductive Reading
  /-- It is refused. -/
  | refused
  /-- It gives no more than so many rows. -/
  | rows (most : Nat)
  /-- So many rows at most, and the open transaction is undone. -/
  | aborted (most : Nat)
  deriving DecidableEq, Repr

/-- The rows that a query gives of those it is for. -/
def Reading.fetch {ρ : Type} (reading : Reading) (all : List ρ) : Option (List ρ) :=
  match reading with
  | refused => none
  | rows most => some (all.take most)
  | aborted most => some (all.take most)

/-- The state of a connection. -/
structure Conn (T : Type) where
  /-- What the connection sees, uncommitted changes included. -/
  tables : T
  /-- The contents an open transaction goes back to. -/
  saved : Option T := none
  /-- The answers to the coming statements. -/
  outcomes : List Outcome := []

namespace Conn

/-- The answer to the next statement. -/
def next (c : Conn T) : Outcome := c.outcomes.headD .ok

/-- The next answer is used up. -/
def used (c : Conn T) : Conn T := { c with outcomes := c.outcomes.tail }

/-- The open transaction, if there is one, is undone. -/
def undone (c : Conn T) : Conn T := { c with tables := c.saved.getD c.tables, saved := none }

/-- Runs one statement; whether it changed the contents. -/
def exec (stmt : T → Option T) : StateM (Conn T) Bool := fun c =>
  match c.next, stmt c.tables with
  | .ok, some t => (true, { c.used with tables := t })
  | .ok, none => (false, c.used)
  | .fail, _ => (false, c.used)
  | .abort, _ => (false, c.used.undone)

/-- Runs statements up to the first one that fails. -/
def execAll (stmts : List (T → Option T)) : StateM (Conn T) Bool := stmts.allM exec

/-- Runs a statement when all went well so far. -/
def execIf (ok : Bool) (stmt : T → Option T) : StateM (Conn T) Bool :=
  if ok then exec stmt else pure false

/-- Runs a query; `none` when it is refused. -/
def select {ρ : Type} (reading : Reading) (query : T → List ρ) :
    StateM (Conn T) (Option (List ρ)) := fun c =>
  (reading.fetch (query c.tables), match reading with
    | .refused => c
    | .rows _ => c
    | .aborted _ => c.undone)

/-- Opens a transaction; refused inside one. -/
def begin : StateM (Conn T) Bool := fun c =>
  if c.next = .ok ∧ c.saved = none then (true, { c.used with saved := some c.tables })
  else (false, c.used)

/-- Commits the open transaction; refused outside one. -/
def commit : StateM (Conn T) Bool := fun c =>
  if c.next = .ok ∧ c.saved ≠ none then (true, { c.used with saved := none })
  else (false, c.used.undone)

/-- Undoes the open transaction. -/
def rollback : StateM (Conn T) Unit := fun c => ((), c.undone)

/-- Ends the open transaction: commits if all went well, else undoes. -/
def finish (ok : Bool) : StateM (Conn T) Unit :=
  if ok then do let _ ← commit
  else rollback

/-- One transaction; `false` if it did not open or a statement failed. The commit's answer is
    ignored. -/
def transact (stmts : List (T → Option T)) : StateM (Conn T) Bool := do
  if ← begin then
    let ok ← execAll stmts
    finish ok
    return ok
  else return false

/-! ## What every operation keeps -/

/-- The contents satisfy `R`, and those to go back to. -/
def Within (R : T → Prop) (c : Conn T) : Prop := R c.tables ∧ ∀ t ∈ c.saved, R t

/-- The statement keeps `R`. -/
def Preserves (R : T → Prop) (stmt : T → Option T) : Prop :=
  ∀ t t', R t → stmt t = some t' → R t'

variable {R : T → Prop}

theorem Within.used {c : Conn T} (h : c.Within R) : c.used.Within R := h

theorem Within.undone {c : Conn T} (h : c.Within R) : c.undone.Within R := by
  refine ⟨?_, by simp [Conn.undone]⟩
  cases hs : c.saved with
  | none => simpa [Conn.undone, hs] using h.1
  | some t => simpa [Conn.undone, hs] using h.2 t hs

theorem within_exec {stmt : T → Option T} (h : Preserves R stmt) :
    Keeps (Within R) (exec stmt) := by
  intro c hc
  simp only [exec, StateT.run]
  split
  · exact ⟨h _ _ hc.1 ‹_›, hc.2⟩
  · exact hc.used
  · exact hc.used
  · exact hc.used.undone

theorem within_execIf {ok : Bool} {stmt : T → Option T} (h : Preserves R stmt) :
    Keeps (Within R) (execIf ok stmt) :=
  .ite (within_exec h) .pure

theorem within_execAll {stmts : List (T → Option T)} (h : ∀ stmt ∈ stmts, Preserves R stmt) :
    Keeps (Within R) (execAll stmts) :=
  Keeps.allM fun stmt hs => within_exec (h stmt hs)

theorem within_begin : Keeps (Within R) begin := by
  intro c hc
  simp only [begin, StateT.run]
  split
  · exact ⟨hc.1, by simpa using hc.1⟩
  · exact hc.used

theorem within_commit : Keeps (Within R) commit := by
  intro c hc
  simp only [commit, StateT.run]
  split
  · exact ⟨hc.1, by simp⟩
  · exact hc.used.undone

theorem within_rollback : Keeps (Within R) rollback := fun _ hc => hc.undone

theorem within_finish {ok : Bool} : Keeps (Within R) (finish ok) := by
  cases ok with
  | true => exact within_commit.bind fun _ => .pure
  | false => exact within_rollback

theorem within_transact {stmts : List (T → Option T)} (h : ∀ stmt ∈ stmts, Preserves R stmt) :
    Keeps (Within R) (transact stmts) := by
  refine within_begin.bind fun opened => .ite ?_ .pure
  exact (within_execAll h).bind fun ok => within_finish.bind fun _ => .pure

/-! ## Transactions are atomic -/

/-- Outside any transaction. -/
def Idle (c : Conn T) : Prop := c.saved = none

/-- The contents that undoing the open transaction would leave. -/
def base (c : Conn T) : T := c.saved.getD c.tables

/-- The contents after the statements, when none is refused. -/
def applyAll (stmts : List (T → Option T)) (t : T) : Option T :=
  stmts.foldlM (fun t stmt => stmt t) t

/-- Statements that all keep `R` keep it together. -/
theorem Preserves.applyAll {R : T → Prop} {stmts : List (T → Option T)}
    (h : ∀ stmt ∈ stmts, Preserves R stmt) {t t' : T} (ht : R t)
    (hs : applyAll stmts t = some t') : R t' := by
  induction stmts generalizing t with
  | nil => cases hs; exact ht
  | cons stmt stmts ih =>
    rw [Conn.applyAll, foldlM_cons] at hs
    obtain ⟨u, hu, hs⟩ := bind_eq_some_iff.1 hs
    exact ih (fun stmt hm => h stmt (.tail _ hm)) (h stmt (.head _) t u ht hu) hs

theorem exec_spec (stmt : T → Option T) (c : Conn T) :
    ((exec stmt).run c).1 = true ∧ stmt c.tables = some ((exec stmt).run c).2.tables ∧
        ((exec stmt).run c).2.saved = c.saved ∨
      ((exec stmt).run c).1 = false ∧
        (((exec stmt).run c).2.tables = c.tables ∧ ((exec stmt).run c).2.saved = c.saved ∨
          ((exec stmt).run c).2.tables = c.base ∧ ((exec stmt).run c).2.saved = none) := by
  simp only [exec, StateT.run]
  split
  · exact .inl ⟨rfl, ‹_›, rfl⟩
  · exact .inr ⟨rfl, .inl ⟨rfl, rfl⟩⟩
  · exact .inr ⟨rfl, .inl ⟨rfl, rfl⟩⟩
  · exact .inr ⟨rfl, .inr ⟨rfl, rfl⟩⟩

/-- Only the last statement may break `R`: it does so only if all run. -/
theorem triple_execAll_snoc {stmts : List (T → Option T)} {last : T → Option T}
    (h : ∀ stmt ∈ stmts, Preserves R stmt) :
    Triple (Within R) (execAll (stmts ++ [last])) fun ok c => (ok = false → Within R c) ∧
      (ok = true → (∃ t, R t ∧ last t = some c.tables) ∧ ∀ t ∈ c.saved, R t) := by
  induction stmts with
  | nil =>
    intro c hc
    rw [nil_append, execAll, run_allM_cons]
    rcases exec_spec last c with ⟨hok, hs, hsv⟩ | ⟨hok, ⟨ht, hsv⟩ | ⟨ht, hsv⟩⟩
    · rw [hok, if_pos rfl]
      exact ⟨fun h => Bool.noConfusion h, fun _ => ⟨⟨_, hc.1, hs⟩, fun t ht => hc.2 t (hsv ▸ ht)⟩⟩
    · rw [hok, if_neg Bool.false_ne_true]
      refine ⟨fun _ => ⟨?_, fun t hsaved => hc.2 t (hsv ▸ hsaved)⟩, fun h => Bool.noConfusion h⟩
      rw [ht]
      exact hc.1
    · rw [hok, if_neg Bool.false_ne_true]
      refine ⟨fun _ => ⟨?_, fun t hsaved => ?_⟩, fun h => Bool.noConfusion h⟩
      · rw [ht]
        exact hc.undone.1
      · rw [hsv] at hsaved
        cases hsaved
  | cons stmt stmts ih =>
    intro c hc
    have hc' := within_exec (h stmt (.head _)) c hc
    rw [cons_append, execAll, run_allM_cons]
    cases hok : ((exec stmt).run c).1 with
    | true =>
      rw [if_pos rfl]
      exact ih (fun stmt hs => h stmt (.tail _ hs)) _ hc'
    | false =>
      rw [if_neg Bool.false_ne_true]
      exact ⟨fun _ => hc', fun h => Bool.noConfusion h⟩

/-- In a transaction from `t₀` statements that all run are applied; after a failure undoing leads to
    `t₀`. -/
theorem execAll_spec (stmts : List (T → Option T)) {t₀ : T} {c : Conn T} (hc : c.saved = some t₀) :
    ((execAll stmts).run c).1 = true ∧
        applyAll stmts c.tables = some ((execAll stmts).run c).2.tables ∧
        ((execAll stmts).run c).2.saved = some t₀ ∨
      ((execAll stmts).run c).1 = false ∧ ((execAll stmts).run c).2.base = t₀ := by
  induction stmts generalizing c with
  | nil => exact .inl ⟨rfl, rfl, hc⟩
  | cons stmt stmts ih =>
    rw [execAll, run_allM_cons]
    rcases exec_spec stmt c with ⟨hok, hs, hsv⟩ | ⟨hok, ⟨-, hsv⟩ | ⟨ht, hsv⟩⟩
    · rw [hok, if_pos rfl]
      rcases ih (hsv.trans hc) with ⟨hr, ha, hv⟩ | hr
      · refine .inl ⟨hr, ?_, hv⟩
        rw [applyAll, foldlM_cons, hs]
        exact ha
      · exact .inr hr
    · rw [hok, if_neg Bool.false_ne_true]
      exact .inr ⟨rfl, by rw [base, hsv, hc, getD_some]⟩
    · rw [hok, if_neg Bool.false_ne_true]
      exact .inr ⟨rfl, by rw [base, hsv, getD_none, ht, base, hc, getD_some]⟩

theorem begin_spec {c : Conn T} (hc : c.Idle) :
    ((begin.run c).1 = true ∧ (begin.run c).2.tables = c.tables ∧
        (begin.run c).2.saved = some c.tables) ∨
      (begin.run c).1 = false ∧ (begin.run c).2.tables = c.tables ∧ (begin.run c).2.Idle := by
  simp only [begin, StateT.run]
  split
  · exact .inl ⟨rfl, rfl, rfl⟩
  · exact .inr ⟨rfl, rfl, hc⟩

theorem begin_of_true {c : Conn T} (h : (begin.run c).1 = true) :
    (begin.run c).2 = { c.used with saved := some c.tables } := by
  simp only [begin, StateT.run] at h ⊢
  split at h
  · rename_i hc
    rw [if_pos hc]
  · cases h

theorem finish_spec (ok : Bool) (c : Conn T) :
    ((finish ok).run c).2.Idle ∧ (((finish ok).run c).2.tables = c.base ∨
      ok = true ∧ ((finish ok).run c).2.tables = c.tables) := by
  cases ok with
  | false => exact ⟨rfl, .inl rfl⟩
  | true =>
    have hrun : ((finish true).run c).2 = (commit.run c).2 := rfl
    rw [hrun]
    simp only [commit, StateT.run]
    split
    · exact ⟨rfl, .inr ⟨trivial, rfl⟩⟩
    · exact ⟨rfl, .inl rfl⟩

/-- Unrefused statements all run or are undone, if each is answered one of the two. -/
theorem execAll_of_no_fail (stmts : List (T → Option T)) {t₀ : T} {c : Conn T}
    (hc : c.saved = some t₀) (hs : ∀ stmt ∈ stmts, ∀ t, stmt t ≠ none)
    (hf : ∀ o ∈ c.outcomes.take stmts.length, o ≠ .fail) :
    ((execAll stmts).run c).1 = true ∨
      ((execAll stmts).run c).1 = false ∧ ((execAll stmts).run c).2.tables = t₀ := by
  induction stmts generalizing c with
  | nil => exact .inl rfl
  | cons stmt stmts ih =>
    obtain ⟨t, ht⟩ := ne_none_iff_exists'.1 (hs stmt (.head _) c.tables)
    rw [execAll, run_allM_cons]
    cases hn : c.next with
    | ok =>
      have hrun : (exec stmt).run c = (true, { c.used with tables := t }) := by
        simp [exec, StateT.run, hn, ht]
      rw [hrun, if_pos rfl]
      refine ih hc (fun stmt hm => hs stmt (.tail _ hm)) fun o ho => hf o ?_
      cases hos : c.outcomes with
      | nil => simp [used, hos] at ho
      | cons o' os => simp_all [used]
    | fail =>
      cases hos : c.outcomes with
      | nil => simp [next, hos] at hn
      | cons o os => exact absurd hn (hf _ (by simp [next, hos]))
    | abort =>
      have hrun : (exec stmt).run c = (false, c.used.undone) := by simp [exec, StateT.run, hn, ht]
      rw [hrun, if_neg Bool.false_ne_true]
      exact .inr ⟨rfl, by simp [undone, used, hc]⟩

/-- A statement leaves an open transaction's start where it was. -/
theorem base_exec {stmt : T → Option T} {t₀ : T} {c : Conn T} (hc : c.saved = some t₀) :
    ((exec stmt).run c).2.base = t₀ := by
  rcases exec_spec stmt c with ⟨-, -, hs⟩ | ⟨-, ⟨-, hs⟩ | ⟨ht, hs⟩⟩
  · rw [base, hs, hc, getD_some]
  · rw [base, hs, hc, getD_some]
  · rw [base, hs, getD_none, ht, base, hc, getD_some]

/-- A transaction is atomic: it leaves none open, and the contents before it or, if it succeeds,
    after its statements. -/
theorem transact_spec {stmts : List (T → Option T)} {c : Conn T} (hc : c.Idle) :
    ((transact stmts).run c).2.Idle ∧ (((transact stmts).run c).2.tables = c.tables ∨
      ((transact stmts).run c).1 = true ∧
        applyAll stmts c.tables = some ((transact stmts).run c).2.tables) := by
  rw [transact, run_bind]
  rcases begin_spec hc with ⟨hb, ht, hs⟩ | ⟨hb, ht, hi⟩
  · rw [hb, if_pos rfl, run_bind, run_bind]
    obtain ⟨hi, hf⟩ := finish_spec ((execAll stmts).run (begin.run c).2).1
      ((execAll stmts).run (begin.run c).2).2
    refine ⟨hi, ?_⟩
    rcases execAll_spec stmts hs with ⟨he, ha, hv⟩ | ⟨he, hbase⟩
    · rcases hf with hf | ⟨-, hf⟩
      · exact .inl (hf.trans (by rw [base, hv, getD_some]))
      · exact .inr ⟨he, by rw [← ht, ha]; exact congrArg some hf.symm⟩
    · rcases hf with hf | ⟨hok, -⟩
      · exact .inl (hf.trans hbase)
      · exact absurd (he.symm.trans hok) Bool.false_ne_true
  · rw [hb, if_neg Bool.false_ne_true]
    exact ⟨hi, .inl ht⟩

/-! ## When nothing fails -/

/-- No statement to come fails by itself. -/
def AllOk (c : Conn T) : Prop := ∀ o ∈ c.outcomes, o = .ok

theorem AllOk.next {c : Conn T} (h : c.AllOk) : c.next = .ok := by
  cases ho : c.outcomes with
  | nil => simp [Conn.next, ho]
  | cons o os => simpa [Conn.next, ho] using h o (by simp [ho])

theorem AllOk.used {c : Conn T} (h : c.AllOk) : c.used.AllOk :=
  fun o ho => h o (mem_of_mem_tail ho)

theorem exec_of_ok (stmt : T → Option T) {c : Conn T} {t : T} (hn : c.next = .ok)
    (hs : stmt c.tables = some t) : (exec stmt).run c = (true, { c.used with tables := t }) := by
  simp [exec, StateT.run, hn, hs]

theorem commit_of_ok {c : Conn T} (hn : c.next = .ok) (hs : c.saved ≠ none) :
    commit.run c = (true, { c.used with saved := none }) := if_pos ⟨hn, hs⟩

theorem begin_of_ok (t : T) (outcomes : List Outcome) :
    begin.run ⟨t, none, .ok :: outcomes⟩ = (true, ⟨t, some t, outcomes⟩) := rfl

theorem begin_of_not_ok {o : Outcome} (ho : o ≠ .ok) (t : T) (outcomes : List Outcome) :
    begin.run ⟨t, none, o :: outcomes⟩ = (false, ⟨t, none, outcomes⟩) :=
  if_neg fun h => ho h.1

/-- Outside any transaction a query changes nothing. -/
theorem select_of_idle {ρ : Type} (reading : Reading) (query : T → List ρ) (t : T)
    (outcomes : List Outcome) : (select reading query).run ⟨t, none, outcomes⟩ =
      (reading.fetch (query t), ⟨t, none, outcomes⟩) := by
  cases reading <;> rfl

theorem mem_of_fetch {ρ : Type} {reading : Reading} {all : List ρ} {x : ρ}
    (h : x ∈ (reading.fetch all).getD []) : x ∈ all := by
  cases reading with
  | refused => cases h
  | rows most => exact mem_of_mem_take h
  | aborted most => exact mem_of_mem_take h

theorem keeps_allOk_exec {stmt : T → Option T} : Keeps AllOk (exec stmt) := by
  intro c hc
  simp only [exec, StateT.run]
  split <;> exact hc.used

theorem keeps_allOk_execAll {stmts : List (T → Option T)} : Keeps AllOk (execAll stmts) :=
  .allM fun _ _ => keeps_allOk_exec

theorem run_exec_of_ok {stmt : T → Option T} {t t' : T} {sv : Option T} (h : stmt t = some t') :
    (exec stmt).run ⟨t, sv, []⟩ = (true, ⟨t', sv, []⟩) := by
  simp [exec, StateT.run, next, used, h]

theorem run_exec_of_refused {stmt : T → Option T} {t : T} {sv : Option T} (h : stmt t = none) :
    (exec stmt).run ⟨t, sv, []⟩ = (false, ⟨t, sv, []⟩) := by
  simp [exec, StateT.run, next, used, h]

theorem run_execAll_of_ok {stmts : List (T → Option T)} {t t' : T} {sv : Option T}
    (h : applyAll stmts t = some t') :
    (execAll stmts).run ⟨t, sv, []⟩ = (true, ⟨t', sv, []⟩) := by
  induction stmts generalizing t with
  | nil => cases h; rfl
  | cons stmt stmts ih =>
    rw [applyAll, foldlM_cons] at h
    obtain ⟨u, hu, h⟩ := bind_eq_some_iff.1 h
    rw [execAll, run_allM_cons, run_exec_of_ok hu, if_pos rfl]
    exact ih h

theorem run_execAll_of_refused {stmts : List (T → Option T)} {t : T} (sv : Option T)
    (h : applyAll stmts t = none) :
    ∃ t', (execAll stmts).run ⟨t, sv, []⟩ = (false, ⟨t', sv, []⟩) := by
  induction stmts generalizing t with
  | nil => cases h
  | cons stmt stmts ih =>
    rw [applyAll, foldlM_cons] at h
    rw [execAll, run_allM_cons]
    cases hs : stmt t with
    | none =>
      rw [run_exec_of_refused hs, if_neg Bool.false_ne_true]
      exact ⟨t, rfl⟩
    | some u =>
      rw [hs] at h
      rw [run_exec_of_ok hs, if_pos rfl]
      exact ih h

/-- With nothing failing a transaction is its statements, or nothing if one is refused. -/
theorem run_transact (stmts : List (T → Option T)) (t : T) :
    ((transact stmts).run ⟨t, none, []⟩).2 = ⟨(applyAll stmts t).getD t, none, []⟩ := by
  have hb : (begin (T := T)).run ⟨t, none, []⟩ = (true, ⟨t, some t, []⟩) := rfl
  rw [transact, run_bind, hb, if_pos rfl, run_bind]
  cases h : applyAll stmts t with
  | none =>
    obtain ⟨t', ht'⟩ := run_execAll_of_refused (some t) h
    rw [ht']
    rfl
  | some t' =>
    rw [run_execAll_of_ok h]
    rfl

end Conn
end Lib
