import Decibell.Lib.Txn

/-!
# Statements that fail

What a connection makes of statements that no constraint refuses can be read off from the answers
to come: `answers` are statements that stop at the first failing one, `execEach` those that run
whatever comes of them, `execCommit` one in a transaction that may not have been opened.
-/

namespace Lib

open List Option

variable {T : Type}

/-- The next answer. -/
def nextOf (os : List Outcome) : Outcome := os.headD .ok

theorem nextOf_of_ok {os : List Outcome} (h : ∀ o ∈ os, o = .ok) : nextOf os = .ok := by
  cases os with
  | nil => rfl
  | cons o os => exact h o (.head _)

/-- How statements fare up to the first one that fails. -/
structure Answered where
  /-- How many of them run. -/
  ran : Nat
  /-- The answer to the first that fails; `ok` when all run. -/
  last : Outcome
  /-- The answers that are left. -/
  left : List Outcome
  deriving DecidableEq

/-- How `n` statements fare, from the answers to come. -/
def answers : Nat → List Outcome → Answered
  | 0, os => ⟨0, .ok, os⟩
  | n + 1, os =>
    if nextOf os = .ok then
      let rest := answers n os.tail
      ⟨rest.ran + 1, rest.last, rest.left⟩
    else ⟨0, nextOf os, os.tail⟩

theorem answers_add (m n : Nat) (os : List Outcome) : answers (m + n) os =
    if (answers m os).last = .ok then
      let rest := answers n (answers m os).left
      ⟨(answers m os).ran + rest.ran, rest.last, rest.left⟩
    else answers m os := by
  induction m generalizing os with
  | zero => simp [answers]
  | succ m ih =>
    rw [Nat.succ_add]
    by_cases h : nextOf os = .ok
    · simp only [answers, if_pos h, ih]
      split
      · simp only [Nat.add_right_comm]
      · rfl
    · simp only [answers, if_neg h]

theorem answers_ran_of_ok {n : Nat} {os : List Outcome} (h : (answers n os).last = .ok) :
    (answers n os).ran = n := by
  induction n generalizing os with
  | zero => rfl
  | succ n ih =>
    by_cases ho : nextOf os = .ok
    · simp only [answers, if_pos ho] at h ⊢
      rw [ih h]
    · simp only [answers, if_neg ho] at h
      exact absurd h ho

theorem answers_ran_lt {n : Nat} {os : List Outcome} (h : (answers n os).last ≠ .ok) :
    (answers n os).ran < n := by
  induction n generalizing os with
  | zero => exact absurd rfl h
  | succ n ih =>
    by_cases ho : nextOf os = .ok
    · simp only [answers, if_pos ho] at h ⊢
      exact Nat.succ_lt_succ (ih h)
    · simp only [answers, if_neg ho]
      exact Nat.succ_pos n

theorem answers_nil (n : Nat) : answers n [] = ⟨n, .ok, []⟩ := by
  induction n with
  | zero => rfl
  | succ n ih => simp [answers, ih, nextOf]

/-- A transaction of `n` statements is committed. -/
def committed (n : Nat) (os : List Outcome) : Prop :=
  (answers n os).last = .ok ∧ nextOf (answers n os).left = .ok

instance (n : Nat) (os : List Outcome) : Decidable (committed n os) :=
  inferInstanceAs (Decidable (_ ∧ _))

/-- One statement more than `n`, which all run. -/
theorem answers_succ {n : Nat} {os : List Outcome} (h : (answers n os).last = .ok) :
    answers (n + 1) os =
      if nextOf (answers n os).left = .ok then ⟨n + 1, .ok, (answers n os).left.tail⟩
      else ⟨n, nextOf (answers n os).left, (answers n os).left.tail⟩ := by
  rw [answers_add, if_pos h, answers_ran_of_ok h]
  simp only [answers]
  split <;> rfl

/-- The answers left after a transaction of `n` statements. -/
def afterwards (n : Nat) (os : List Outcome) : List Outcome :=
  if (answers n os).last = .ok then (answers n os).left.tail else (answers n os).left

/-- The answers left, if the transaction could be opened. -/
def transacted (n : Nat) (os : List Outcome) : List Outcome :=
  if nextOf os = .ok then afterwards n os.tail else os.tail

namespace Conn

variable {t t' t₀ : T} {sv : Option T} {os : List Outcome}

/-- The connection after a statement that failed. -/
def failed (o : Outcome) (c : Conn T) : Conn T := if o = .abort then c.undone else c

/-- Outside a transaction a failure changes nothing. -/
theorem failed_idle (o : Outcome) : failed o (⟨t, none, os⟩ : Conn T) = ⟨t, none, os⟩ := by
  rw [failed]
  split <;> rfl

theorem exec_of_head_ok {stmt : T → Option T} (h : stmt t = some t') (ho : nextOf os = .ok) :
    (exec stmt).run ⟨t, sv, os⟩ = (true, ⟨t', sv, os.tail⟩) := by
  have hn : (⟨t, sv, os⟩ : Conn T).next = .ok := ho
  simp [exec, StateT.run, hn, h, used]

theorem exec_of_head_not_ok {stmt : T → Option T} (ho : nextOf os ≠ .ok) :
    (exec stmt).run ⟨t, sv, os⟩ = (false, failed (nextOf os) ⟨t, sv, os.tail⟩) := by
  have hn : (⟨t, sv, os⟩ : Conn T).next = nextOf os := rfl
  cases ho' : nextOf os with
  | ok => exact absurd ho' ho
  | fail => simp [exec, StateT.run, hn, ho', used, failed]
  | abort => simp [exec, StateT.run, hn, ho', used, failed]

/-- A statement that a constraint refuses fails. -/
theorem exec_of_none {stmt : T → Option T} (h : stmt t = none) :
    (exec stmt).run ⟨t, sv, os⟩ = (false, failed (nextOf os) ⟨t, sv, os.tail⟩) := by
  have hn : (⟨t, sv, os⟩ : Conn T).next = nextOf os := rfl
  cases ho : nextOf os with
  | ok => simp [exec, StateT.run, hn, ho, h, used, failed]
  | fail => simp [exec, StateT.run, hn, ho, used, failed]
  | abort => simp [exec, StateT.run, hn, ho, used, failed]

/-- Statements that none is refused run up to the first that fails. -/
theorem run_execAll {stmts : List (T → Option T)} (h : applyAll stmts t = some t')
    (sv : Option T) (os : List Outcome) :
    (answers stmts.length os).last = .ok ∧
        (execAll stmts).run ⟨t, sv, os⟩ = (true, ⟨t', sv, (answers stmts.length os).left⟩) ∨
      (answers stmts.length os).last ≠ .ok ∧
        ∃ u, applyAll (stmts.take (answers stmts.length os).ran) t = some u ∧
          (execAll stmts).run ⟨t, sv, os⟩ = (false, failed (answers stmts.length os).last
            ⟨u, sv, (answers stmts.length os).left⟩) := by
  induction stmts generalizing t os with
  | nil =>
    cases h
    exact .inl ⟨rfl, rfl⟩
  | cons stmt stmts ih =>
    rw [applyAll, foldlM_cons] at h
    obtain ⟨u, hu, h⟩ := bind_eq_some_iff.1 h
    rw [execAll, run_allM_cons, length_cons]
    by_cases ho : nextOf os = .ok
    · simp only [exec_of_head_ok hu ho, if_pos, answers, ho]
      refine (ih h os.tail).imp id ?_
      rintro ⟨hl, v, hv, hrun⟩
      refine ⟨hl, v, ?_, hrun⟩
      rw [take_succ_cons, applyAll, foldlM_cons]
      exact bind_eq_some_iff.2 ⟨u, hu, hv⟩
    · simp only [exec_of_head_not_ok ho, answers, if_neg ho]
      exact .inr ⟨ho, t, rfl, rfl⟩

/-- A commit keeps what the transaction did, or undoes it. -/
theorem run_commit : commit.run ⟨t, some t₀, os⟩ =
    (decide (nextOf os = .ok), ⟨if nextOf os = .ok then t else t₀, none, os.tail⟩) := by
  have hn : (⟨t, some t₀, os⟩ : Conn T).next = nextOf os := rfl
  by_cases ho : nextOf os = .ok
  · simp [commit, StateT.run, hn, ho, used]
  · simp [commit, StateT.run, hn, ho, used, undone]

/-- Outside a transaction there is nothing to commit. -/
theorem run_commit_idle : commit.run (⟨t, none, os⟩ : Conn T) = (false, ⟨t, none, os.tail⟩) := by
  simp [commit, StateT.run, used, undone]

/-- The end of a transaction whose statements all ran. -/
theorem run_finish_true : (finish true).run ⟨t, some t₀, os⟩ =
    ((), ⟨if nextOf os = .ok then t else t₀, none, os.tail⟩) := by
  have hrun : (finish true).run (⟨t, some t₀, os⟩ : Conn T) =
      ((), (commit.run ⟨t, some t₀, os⟩).2) := rfl
  rw [hrun, run_commit]

/-- A transaction's end, maybe undone already. -/
theorem run_finish_false (o : Outcome) : (finish false).run (failed o ⟨t, some t₀, os⟩) =
    ((), ⟨t₀, none, os⟩) := by
  rw [failed]
  split <;> rfl

/-- Outside a transaction there is nothing to commit or undo. -/
theorem run_finish_idle (ok : Bool) : (finish ok).run (⟨t, none, os⟩ : Conn T) =
    ((), ⟨t, none, if ok then os.tail else os⟩) := by
  cases ok with
  | false => rfl
  | true =>
    have hrun : (finish true).run (⟨t, none, os⟩ : Conn T) =
        ((), (commit.run ⟨t, none, os⟩).2) := rfl
    rw [hrun, run_commit_idle]
    rfl

theorem run_begin (t : T) (os : List Outcome) : begin.run (⟨t, none, os⟩ : Conn T) =
    if nextOf os = .ok then (true, ⟨t, some t, os.tail⟩) else (false, ⟨t, none, os.tail⟩) := by
  have hn : (⟨t, none, os⟩ : Conn T).next = nextOf os := rfl
  simp [begin, StateT.run, hn, used]

/-- Opened and committed, a transaction leaves the contents after its statements, else those before.
    -/
theorem run_transact_of_applyAll {stmts : List (T → Option T)} (h : applyAll stmts t = some t')
    (os : List Outcome) : ((transact stmts).run ⟨t, none, os⟩).2 =
      ⟨if nextOf os = .ok ∧ committed stmts.length os.tail then t' else t, none,
        transacted stmts.length os⟩ := by
  rw [transact, run_bind, run_begin]
  by_cases ho : nextOf os = .ok
  · simp only [ho, if_pos, transacted, afterwards, true_and, run_bind]
    rcases run_execAll h (some t) os.tail with ⟨hok, hrun⟩ | ⟨hno, u, -, hrun⟩
    · rw [hrun, if_pos hok, run_finish_true]
      simp only [committed, hok, true_and]
      rfl
    · rw [hrun, if_neg hno, run_finish_false, if_neg fun h => hno h.1]
      rfl
  · simp only [ho, if_false, false_and, transacted, Bool.false_eq_true]
    rfl

/-! ## Statements whose answers are not looked at -/

/-- Runs statements whatever comes of them. -/
def execEach (stmts : List (T → Option T)) : StateM (Conn T) Unit :=
  stmts.forM fun stmt => do let _ ← exec stmt

theorem within_execEach {R : T → Prop} {stmts : List (T → Option T)}
    (h : ∀ stmt ∈ stmts, Preserves R stmt) : Keeps (Within R) (execEach stmts) := by
  induction stmts with
  | nil => exact Keeps.pure
  | cons stmt stmts ih =>
    exact Triple.bind ((within_exec (h stmt (.head _))).bind fun _ => Keeps.pure)
      fun _ => ih fun stmt hs => h stmt (.tail _ hs)

/-- The statements that run. -/
def runsOf : List Outcome → List (T → Option T) → List (T → Option T)
  | _, [] => []
  | os, stmt :: stmts =>
    if nextOf os = .ok then stmt :: runsOf os.tail stmts else runsOf os.tail stmts

/-- The statements that run after a failure undid the transaction. -/
def undoneBy : List Outcome → List (T → Option T) → Option (List (T → Option T))
  | _, [] => none
  | os, _ :: stmts =>
    if nextOf os = .abort then some (runsOf os.tail stmts) else undoneBy os.tail stmts

theorem runsOf_of_ok {os : List Outcome} {stmts : List (T → Option T)}
    (h : ∀ o ∈ os, o = .ok) : runsOf os stmts = stmts := by
  induction stmts generalizing os with
  | nil => rfl
  | cons stmt stmts ih =>
    rw [runsOf, if_pos (nextOf_of_ok h), ih fun o ho => h o (mem_of_mem_tail ho)]

theorem undoneBy_of_ok {os : List Outcome} {stmts : List (T → Option T)}
    (h : ∀ o ∈ os, o = .ok) : undoneBy os stmts = none := by
  induction stmts generalizing os with
  | nil => rfl
  | cons stmt stmts ih =>
    have hno : nextOf os ≠ .abort := nextOf_of_ok h ▸ Outcome.noConfusion
    rw [undoneBy, if_neg hno, ih fun o ho => h o (mem_of_mem_tail ho)]

theorem run_execEach_cons (stmt : T → Option T) (stmts : List (T → Option T)) (c : Conn T) :
    (execEach (stmt :: stmts)).run c = (execEach stmts).run ((exec stmt).run c).2 := rfl

theorem runsOf_sublist (os : List Outcome) (stmts : List (T → Option T)) :
    (runsOf os stmts).Sublist stmts := by
  induction stmts generalizing os with
  | nil => exact .slnil
  | cons stmt stmts ih =>
    rw [runsOf]
    split
    · exact (ih os.tail).cons_cons stmt
    · exact (ih os.tail).cons stmt

theorem undoneBy_sublist {os : List Outcome} {stmts left : List (T → Option T)}
    (h : undoneBy os stmts = some left) : left.Sublist stmts := by
  induction stmts generalizing os with
  | nil => cases h
  | cons stmt stmts ih =>
    rw [undoneBy] at h
    split at h
    · cases h
      exact (runsOf_sublist _ _).cons stmt
    · exact (ih h).cons stmt

/-- Outside a transaction the statements stand that run. -/
theorem run_execEach_idle {stmts : List (T → Option T)} (hs : ∀ stmt ∈ stmts, ∀ t, stmt t ≠ none)
    (t : T) (os : List Outcome) : ∃ u, applyAll (runsOf os stmts) t = some u ∧
      (execEach stmts).run ⟨t, none, os⟩ = ((), ⟨u, none, os.drop stmts.length⟩) := by
  induction stmts generalizing t os with
  | nil => exact ⟨t, rfl, rfl⟩
  | cons stmt stmts ih =>
    obtain ⟨v, hv⟩ := ne_none_iff_exists'.1 (hs stmt (.head _) t)
    have hs' : ∀ stmt ∈ stmts, ∀ t, stmt t ≠ none := fun stmt hm => hs stmt (.tail _ hm)
    have hdrop : os.drop (stmts.length + 1) = os.tail.drop stmts.length := by
      rw [← drop_one, drop_drop, Nat.add_comm]
    rw [run_execEach_cons, runsOf, length_cons, hdrop]
    by_cases ho : nextOf os = .ok
    · rw [exec_of_head_ok hv ho, if_pos ho, applyAll, foldlM_cons, hv]
      exact ih hs' _ _
    · rw [exec_of_head_not_ok ho, if_neg ho, failed_idle]
      exact ih hs' _ _

theorem run_execEach {stmts : List (T → Option T)} (hs : ∀ stmt ∈ stmts, ∀ t, stmt t ≠ none)
    (t t₀ : T) (os : List Outcome) :
    (undoneBy os stmts = none ∧ ∃ u, applyAll (runsOf os stmts) t = some u ∧
        (execEach stmts).run ⟨t, some t₀, os⟩ = ((), ⟨u, some t₀, os.drop stmts.length⟩)) ∨
      ∃ left, undoneBy os stmts = some left ∧ ∃ u, applyAll left t₀ = some u ∧
        (execEach stmts).run ⟨t, some t₀, os⟩ = ((), ⟨u, none, os.drop stmts.length⟩) := by
  induction stmts generalizing t os with
  | nil => exact .inl ⟨rfl, t, rfl, rfl⟩
  | cons stmt stmts ih =>
    obtain ⟨v, hv⟩ := ne_none_iff_exists'.1 (hs stmt (.head _) t)
    have hs' : ∀ stmt ∈ stmts, ∀ t, stmt t ≠ none := fun stmt hm => hs stmt (.tail _ hm)
    have hdrop : os.drop (stmts.length + 1) = os.tail.drop stmts.length := by
      rw [← drop_one, drop_drop, Nat.add_comm]
    rw [run_execEach_cons, runsOf, undoneBy, length_cons, hdrop]
    cases ho : nextOf os with
    | ok =>
      rw [exec_of_head_ok hv ho, if_pos rfl, if_neg (by decide), applyAll, foldlM_cons, hv]
      exact ih hs' _ _
    | fail =>
      have hno : nextOf os ≠ .ok := ho ▸ (by decide)
      rw [exec_of_head_not_ok hno, ho, if_neg (by decide), if_neg (by decide)]
      exact ih hs' _ _
    | abort =>
      have hno : nextOf os ≠ .ok := ho ▸ (by decide)
      rw [exec_of_head_not_ok hno, ho, if_pos rfl, if_neg (by decide)]
      exact .inr ⟨_, rfl, run_execEach_idle hs' t₀ os.tail⟩

/-- Outside a transaction a statement runs, or changes nothing. -/
theorem exec_idle (stmt : T → Option T) {c : Conn T} (hc : c.Idle) :
    ((exec stmt).run c).2.Idle ∧
      (((exec stmt).run c).1 = true ∧ stmt c.tables = some ((exec stmt).run c).2.tables ∨
        ((exec stmt).run c).1 = false ∧ ((exec stmt).run c).2.tables = c.tables) := by
  have hbase : c.base = c.tables := by
    have hsaved : c.saved = none := hc
    rw [base, hsaved, getD_none]
  rcases exec_spec stmt c with ⟨hok, hs, hsv⟩ | ⟨hok, ⟨ht, hsv⟩ | ⟨ht, hsv⟩⟩
  · exact ⟨hsv.trans hc, .inl ⟨hok, hs⟩⟩
  · exact ⟨hsv.trans hc, .inr ⟨hok, ht⟩⟩
  · exact ⟨hsv, .inr ⟨hok, ht.trans hbase⟩⟩

/-! ## One statement, whose transaction may not have been opened -/

/-- Looks up a row; a lookup that fails finds none. -/
def lookup {ρ : Type} (answer : Outcome) (query : T → Option ρ) : StateM (Conn T) (Option ρ) := fun c =>
  match answer with
  | .ok => (query c.tables, c)
  | .fail => (none, c)
  | .abort => (none, c.undone)

/-- Runs a statement and commits; the answers are not looked at. -/
def execCommit (stmt : T → Option T) : StateM (Conn T) Unit := do
  let _ ← exec stmt
  let _ ← commit

/-- The statement runs, and its transaction is committed. -/
def Stands (opened : Prop) (os : List Outcome) : Prop :=
  nextOf os = .ok ∧ (opened → nextOf os.tail = .ok)

instance (opened : Prop) [Decidable opened] (os : List Outcome) : Decidable (Stands opened os) :=
  inferInstanceAs (Decidable (_ ∧ (_ → _)))

/-- What a transaction with nothing done goes back to, if opened. -/
def opening (opened : Prop) [Decidable opened] (t : T) : Option T := if opened then some t else none

theorem getD_opening (opened : Prop) [Decidable opened] (t : T) : (opening opened t).getD t = t := by
  rw [opening]
  split <;> rfl

theorem run_begin_bind {α : Type} (t : T) (os : List Outcome) (m : StateM (Conn T) α) :
    StateT.run (do let _ ← begin; m) ⟨t, none, os⟩ =
      m.run ⟨t, opening (nextOf os = .ok) t, os.tail⟩ := by
  rw [run_bind, run_begin, opening]
  split <;> rfl

theorem run_lookup_idle {ρ : Type} (answer : Outcome) (query : T → Option ρ) :
    (lookup answer query).run (⟨t, none, os⟩ : Conn T) =
      (if answer = .ok then query t else none, ⟨t, none, os⟩) := by
  cases answer <;> rfl

theorem run_lookup_ok {ρ : Type} (query : T → Option ρ) (c : Conn T) :
    (lookup .ok query).run c = (query c.tables, c) := rfl

theorem run_lookup_rollback {ρ : Type} {answer : Outcome} (h : answer ≠ .ok) (query : T → Option ρ)
    (opened : Prop) [Decidable opened] : ∃ c, (lookup answer query).run ⟨t, opening opened t, os⟩ =
      (none, c) ∧ rollback.run c = ((), ⟨t, none, os⟩) := by
  cases answer with
  | ok => exact absurd rfl h
  | fail =>
    refine ⟨_, rfl, ?_⟩
    simp only [rollback, StateT.run, undone, getD_opening]
  | abort =>
    refine ⟨_, rfl, ?_⟩
    simp only [rollback, StateT.run, undone, getD_opening, getD_none]

theorem run_rollback_opening (opened : Prop) [Decidable opened] :
    rollback.run (⟨t, opening opened t, os⟩ : Conn T) = ((), ⟨t, none, os⟩) := by
  simp only [rollback, StateT.run, undone, getD_opening]

theorem run_execCommit {stmt : T → Option T} (h : stmt t = some t') (opened : Prop)
    [Decidable opened] : (execCommit stmt).run ⟨t, opening opened t, os⟩ =
      ((), ⟨if Stands opened os then t' else t, none, os.tail.tail⟩) := by
  have hrun (c : Conn T) : (execCommit stmt).run c = ((), (commit.run ((exec stmt).run c).2).2) := rfl
  rw [hrun, opening]
  by_cases ho : nextOf os = .ok
  · rw [exec_of_head_ok h ho]
    by_cases hopened : opened
    · simp only [hopened, if_true, run_commit, Stands, ho, true_and, forall_const]
    · simp only [hopened, if_false, run_commit_idle, Stands, ho, true_and, false_imp_iff, if_true]
  · have hfalls : ¬Stands opened os := fun h => ho h.1
    rw [exec_of_head_not_ok ho, if_neg hfalls]
    by_cases hopened : opened
    · rw [if_pos hopened, failed]
      split
      · exact congrArg (Prod.mk ()) (congrArg Prod.snd run_commit_idle)
      · simp only [run_commit, ite_self]
    · rw [if_neg hopened, failed_idle, run_commit_idle]

/-! ## A query in a transaction that did nothing yet -/

theorem fetch_sublist {ρ : Type} (reading : Reading) (all : List ρ) :
    ((reading.fetch all).getD []).Sublist all := by
  cases reading with
  | refused => exact nil_sublist all
  | rows most => exact take_sublist most all
  | aborted most => exact take_sublist most all

theorem run_select_within (t : T) (os : List Outcome) (reading : Reading) {ρ : Type}
    (query : T → List ρ) :
    ∃ sv, (sv = none ∨ sv = some t) ∧ (select reading query).run ⟨t, some t, os⟩ =
      (reading.fetch (query t), ⟨t, sv, os⟩) := by
  cases reading with
  | refused => exact ⟨some t, .inr rfl, rfl⟩
  | rows most => exact ⟨some t, .inr rfl, rfl⟩
  | aborted most => exact ⟨none, .inl rfl, rfl⟩

theorem run_rollback_within {sv : Option T} (hsv : sv = none ∨ sv = some t) :
    rollback.run ⟨t, sv, os⟩ = ((), ⟨t, none, os⟩) := by
  rcases hsv with rfl | rfl
  · rfl
  · rfl

theorem run_rollback_failed (o : Outcome) {sv : Option T} (hsv : sv = none ∨ sv = some t) :
    rollback.run (failed o ⟨t, sv, os⟩) = ((), ⟨t, none, os⟩) := by
  rw [failed]
  rcases hsv with rfl | rfl
  · split <;> rfl
  · split <;> rfl

end Conn
end Lib
