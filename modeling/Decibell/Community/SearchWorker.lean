import Decibell.Lib.Run
import Mathlib.Data.List.Basic

/-!
# The search worker

Searches run one at a time on a thread of their own. Sessions put theirs in its queue, and take them
back; both happen under the worker's lock, as do the steps by which the thread takes a search and by
which it is done with it.

* `Dropped`: the searches that are not to be answered, as the history tells it.
-/

namespace Decibell

open Lib List

/-- A queued search: whose it is, and the callback for its answer. -/
structure SearchJob where
  owner : Nat
  done : Nat
  deriving DecidableEq

/-- Where the thread is, with what it has on its stack. -/
inductive SearchThread
  /-- For the queue to fill. -/
  | waiting
  | executing (job : SearchJob)
  /-- With the outcome, before it takes the lock. -/
  | executed (job : SearchJob)
  /-- The lock is given back, the callback is not yet invoked. -/
  | finished (job : SearchJob) (cancelled : Bool)
  deriving DecidableEq

structure SearchWorker where
  queue : List SearchJob := []
  /-- 0 while no search runs. -/
  runningOwner : Nat := 0
  cancelRunning : Bool := false
  thread : SearchThread := .waiting

namespace SearchWorker

def kMaxQueued : Nat := 32

/-- Whether the search that runs is the owner's. -/
def runs (w : SearchWorker) (owner : Nat) : Bool :=
  w.runningOwner ≠ 0 && w.runningOwner = owner

/-- The queue with a search in its owner's place. -/
def supersede (job : SearchJob) : List SearchJob → Option (List SearchJob)
  | [] => none
  | queued :: rest =>
    if queued.owner = job.owner then some (job :: rest)
    else (supersede job rest).map (queued :: ·)

/-- Whether the search is queued; it may be refused as busy. -/
def submit (w : SearchWorker) (job : SearchJob) : Bool × SearchWorker :=
  let w := { w with cancelRunning := w.cancelRunning || w.runs job.owner }
  match supersede job w.queue with
  | some queue => (true, { w with queue })
  | none =>
    if w.queue.length ≥ kMaxQueued then (false, w)
    else (true, { w with queue := w.queue ++ [job] })

def cancel (w : SearchWorker) (owner : Nat) : SearchWorker :=
  { w with
    queue := w.queue.filter (·.owner ≠ owner)
    cancelRunning := w.cancelRunning || w.runs owner }

/-- A step of the thread, with the search it calls back. -/
def run (w : SearchWorker) : Option (Option SearchJob × SearchWorker) :=
  match w.thread with
  | .waiting =>
    match w.queue with
    | [] => none
    | job :: queue => some (none,
        { queue, runningOwner := job.owner, cancelRunning := false, thread := .executing job })
  | .executing job => some (none, { w with thread := .executed job })
  | .executed job => some (none,
      { w with
        runningOwner := 0, cancelRunning := false, thread := .finished job w.cancelRunning })
  | .finished job cancelled =>
    some (if cancelled then none else some job, { w with thread := .waiting })

end SearchWorker

/-! ## Runs -/

inductive SearchEvent
  | submitted (job : SearchJob) (queued : Bool)
  | cancelled (owner : Nat)
  /-- The thread is done with the search, which counts as answered. -/
  | finished (job : SearchJob)
  | delivered (job : SearchJob)
  deriving DecidableEq

/-- A worker and its history, latest first; callbacks are numbered. -/
structure WorkerRun where
  worker : SearchWorker := {}
  log : List SearchEvent := []
  submitted : Nat := 0

inductive WorkerAct
  | submit (owner : Nat)
  | cancel (owner : Nat)
  /-- The thread makes its next step. -/
  | run
  deriving DecidableEq

namespace WorkerRun

variable (r : WorkerRun)

/-- What a step of the thread adds to the history. -/
def told (w : SearchWorker) (answered : Option SearchJob) : List SearchEvent :=
  match w.thread, answered with
  | .executed job, _ => [.finished job]
  | _, some job => [.delivered job]
  | _, none => []

def perform : WorkerAct → Option WorkerRun
  | .submit owner =>
    let job : SearchJob := ⟨owner, r.submitted⟩
    let (queued, worker) := r.worker.submit job
    some ⟨worker, .submitted job queued :: r.log, r.submitted + 1⟩
  | .cancel owner => some { r with worker := r.worker.cancel owner, log := .cancelled owner :: r.log }
  | .run => r.worker.run.map fun (answered, worker) =>
      { r with worker, log := told r.worker answered ++ r.log }

end WorkerRun

/-- The owners of an act: sessions are numbered from 1. -/
def WorkerAct.Owned : WorkerAct → Prop
  | submit owner => owner ≠ 0
  | cancel owner => owner ≠ 0
  | run => True

/-- A new worker's runs, with searches and cancellations between any steps. -/
def searchWorkers : System WorkerRun WorkerAct where
  init r := r = {}
  step r a r' := a.Owned ∧ r.perform a = some r'

/-! ## What the history says of a search -/

namespace SearchEvent

def ends : SearchEvent → Option Nat
  | submitted job _ => some job.owner
  | cancelled owner => some owner
  | finished _ => none
  | delivered _ => none

end SearchEvent

/-- A search was superseded or cancelled before the thread was done with it. -/
def Dropped (job : SearchJob) : List SearchEvent → Prop
  | [] => False
  | e :: past =>
    (e.ends = some job.owner ∧ .submitted job true ∈ past ∧ .finished job ∉ past) ∨ Dropped job past

/-- A search was accepted, and the thread is not done with it. -/
structure Open (job : SearchJob) (log : List SearchEvent) : Prop where
  accepted : .submitted job true ∈ log
  unfinished : .finished job ∉ log
  unanswered : .delivered job ∉ log

variable {job : SearchJob} {log : List SearchEvent} {e : SearchEvent} {owner : Nat}

theorem Dropped.accepted (h : Dropped job log) : .submitted job true ∈ log := by
  induction log with
  | nil => exact h.elim
  | cons e past ih =>
    rcases h with ⟨_, haccepted, _⟩ | h
    · exact mem_cons_of_mem _ haccepted
    · exact mem_cons_of_mem _ (ih h)

theorem dropped_cons_of_ends (he : e.ends = some owner) : Dropped job (e :: log) ↔
    (job.owner = owner ∧ .submitted job true ∈ log ∧ .finished job ∉ log) ∨ Dropped job log := by
  rw [Dropped, he, Option.some.injEq, eq_comm]

theorem dropped_cons_of_not_ends (he : e.ends = none) :
    Dropped job (e :: log) ↔ Dropped job log := by
  rw [Dropped, he]
  exact ⟨fun h => h.resolve_left (fun hends => nomatch hends.1), .inr⟩

/-! ## The invariant -/

namespace SearchThread

def job? : SearchThread → Option SearchJob
  | waiting => none
  | executing job => some job
  | executed job => some job
  | finished job _ => some job

end SearchThread

/-- What holds of the search that the thread has. -/
def ThreadInv (w : SearchWorker) (log : List SearchEvent) : SearchThread → Prop
  | .waiting => w.runningOwner = 0
  | .executing job | .executed job =>
    w.runningOwner = job.owner ∧ Open job log ∧ job ∉ w.queue ∧
      (w.cancelRunning = true ↔ Dropped job log)
  | .finished job cancelled =>
    w.runningOwner = 0 ∧ .submitted job true ∈ log ∧ .finished job ∈ log ∧
      .delivered job ∉ log ∧ (cancelled = true ↔ Dropped job log)

/-- What holds of a worker and its history. -/
structure WorkerInv (r : WorkerRun) : Prop where
  fresh : ∀ job queued, .submitted job queued ∈ r.log → job.done < r.submitted
  owned : ∀ job queued, .submitted job queued ∈ r.log → job.owner ≠ 0
  asked : ∀ job, .finished job ∈ r.log ∨ .delivered job ∈ r.log → .submitted job true ∈ r.log
  owners : (r.worker.queue.map (·.owner)).Nodup
  cap : r.worker.queue.length ≤ SearchWorker.kMaxQueued
  queued : ∀ job ∈ r.worker.queue, Open job r.log ∧ ¬ Dropped job r.log
  thread : ThreadInv r.worker r.log r.worker.thread
  /-- A search that is nowhere was dropped or answered. -/
  gone : ∀ job, .submitted job true ∈ r.log → job ∉ r.worker.queue →
    r.worker.thread.job? ≠ some job →
      (Dropped job r.log ∧ .delivered job ∉ r.log) ∨
      (¬ Dropped job r.log ∧ .finished job ∈ r.log ∧ r.log.count (.delivered job) = 1)

variable {r : WorkerRun}

theorem WorkerInv.init : WorkerInv {} where
  fresh _ _ h := nomatch h
  owned _ _ h := nomatch h
  asked _ h := h.elim nofun nofun
  owners := .nil
  cap := Nat.zero_le _
  queued _ h := nomatch h
  thread := rfl
  gone _ h := nomatch h

theorem SearchWorker.runs_iff {w : SearchWorker} (ho : owner ≠ 0) :
    w.runs owner = true ↔ w.runningOwner = owner := by
  rw [SearchWorker.runs, Bool.and_eq_true, decide_eq_true_eq, decide_eq_true_eq]
  exact ⟨And.right, fun heq => ⟨heq ▸ ho, heq⟩⟩

/-- An event ends the owner's searches: out of the queue, the running one cancelled, maybe a new one
    in. -/
theorem WorkerInv.ended (h : WorkerInv r) (ho : owner ≠ 0) (he : e.ends = some owner)
    {queue : List SearchJob} {submitted : Nat} (hle : r.submitted ≤ submitted)
    (hnew : ∀ job queued, e = .submitted job queued →
      job.owner = owner ∧ job.done = r.submitted ∧ r.submitted < submitted)
    (hqueue : ∀ job, job ∈ queue ↔
      (job ∈ r.worker.queue ∧ job.owner ≠ owner) ∨ e = .submitted job true)
    (howners : (queue.map (·.owner)).Nodup) (hcap : queue.length ≤ SearchWorker.kMaxQueued) :
    WorkerInv
      { worker := { r.worker with
          queue, cancelRunning := r.worker.cancelRunning || r.worker.runs owner }
        log := e :: r.log
        submitted } := by
  have hfinished : ∀ job, SearchEvent.finished job ∈ e :: r.log ↔ .finished job ∈ r.log := by
    intro job
    rw [mem_cons, or_iff_right]
    rintro rfl
    cases he
  have hdelivered : ∀ job, e ≠ SearchEvent.delivered job := by
    rintro job rfl
    cases he
  have hanswered : ∀ job, SearchEvent.delivered job ∈ e :: r.log ↔ .delivered job ∈ r.log := by
    intro job
    rw [mem_cons, or_iff_right (hdelivered job).symm]
  have hopen : ∀ job, Open job r.log → Open job (e :: r.log) := fun job hopen =>
    ⟨mem_cons_of_mem _ hopen.accepted, mt (hfinished job).1 hopen.unfinished,
      mt (hanswered job).1 hopen.unanswered⟩
  -- the new search is in nobody's history yet
  have hunknown : ∀ job queued, e = .submitted job queued →
      ∀ queued', SearchEvent.submitted job queued' ∉ r.log := by
    intro job queued heq queued' hmem
    have hdone := h.fresh job queued' hmem
    rw [(hnew job queued heq).2.1] at hdone
    exact Nat.lt_irrefl _ hdone
  have hdropped : ∀ job, ¬ Dropped job r.log → job.owner ≠ owner → ¬ Dropped job (e :: r.log) := by
    intro job hnot howner hdropped
    rcases (dropped_cons_of_ends he).1 hdropped with ⟨heq, _⟩ | hdropped
    · exact howner heq
    · exact hnot hdropped
  refine
    { fresh := ?_
      owned := ?_
      asked := ?_
      owners := howners
      cap := hcap
      queued := ?_
      thread := ?_
      gone := ?_ }
  · intro job queued hmem
    rcases mem_cons.1 hmem with heq | hmem
    · obtain ⟨_, hdone, hlt⟩ := hnew job queued heq.symm
      rw [hdone]
      exact hlt
    · exact Nat.lt_of_lt_of_le (h.fresh job queued hmem) hle
  · intro job queued hmem
    rcases mem_cons.1 hmem with heq | hmem
    · rw [(hnew job queued heq.symm).1]
      exact ho
    · exact h.owned job queued hmem
  · intro job hmem
    rw [hfinished, hanswered] at hmem
    exact mem_cons_of_mem _ (h.asked job hmem)
  · intro job hmem
    rcases (hqueue job).1 hmem with ⟨hmem, howner⟩ | rfl
    · exact ⟨hopen job (h.queued job hmem).1, hdropped job (h.queued job hmem).2 howner⟩
    · -- a new search is open, and nothing has come after it
      have hunknown := hunknown job true rfl
      refine ⟨⟨mem_cons_self, ?_, ?_⟩, ?_⟩
      · rw [hfinished]
        exact fun hmem => hunknown true (h.asked job (.inl hmem))
      · rw [hanswered]
        exact fun hmem => hunknown true (h.asked job (.inr hmem))
      · rw [dropped_cons_of_ends he]
        rintro (⟨_, hmem, _⟩ | hdropped)
        · exact hunknown true hmem
        · exact hunknown true hdropped.accepted
  · -- the one that runs is dropped if it is the owner's
    have hthread := h.thread
    have hrunning : ∀ job, r.worker.runningOwner = job.owner → Open job r.log →
        job ∉ r.worker.queue → (r.worker.cancelRunning = true ↔ Dropped job r.log) →
        job ∉ queue ∧ ((r.worker.cancelRunning || r.worker.runs owner) = true ↔
          Dropped job (e :: r.log)) := by
      intro job hrunning hopen hmem hcancel
      refine ⟨?_, ?_⟩
      · rw [hqueue]
        rintro (⟨hqueued, _⟩ | heq)
        · exact hmem hqueued
        · exact hunknown job true heq true hopen.accepted
      · rw [dropped_cons_of_ends he, Bool.or_eq_true, SearchWorker.runs_iff ho, hcancel, hrunning,
          or_comm]
        exact or_congr_left (iff_self_and.2 fun _ => ⟨hopen.accepted, hopen.unfinished⟩)
    dsimp only
    revert hthread
    cases r.worker.thread with
    | waiting => exact id
    | executing job | executed job =>
      rintro ⟨heq, hjob, hmem, hcancel⟩
      exact ⟨heq, hopen job hjob, hrunning job heq hjob hmem hcancel⟩
    | finished job cancelled =>
      rintro ⟨heq, haccepted, hmem, hunanswered, hcancel⟩
      refine ⟨heq, mem_cons_of_mem _ haccepted, (hfinished job).2 hmem,
        mt (hanswered job).1 hunanswered, hcancel.trans ?_⟩
      rw [dropped_cons_of_ends he]
      exact (or_iff_right fun hends => hends.2.2 hmem).symm
  · intro job haccepted hmem hthread
    dsimp only at hmem hthread
    rw [hqueue, not_or] at hmem
    have haccepted : .submitted job true ∈ r.log :=
      (mem_cons.1 haccepted).resolve_left fun heq => hmem.2 heq.symm
    dsimp only
    rw [hanswered, hfinished, count_cons_of_ne (hdelivered job), dropped_cons_of_ends he]
    by_cases hqueued : job ∈ r.worker.queue
    · -- it leaves the queue, so it is the owner's
      have howner : job.owner = owner := not_not.1 fun hne => hmem.1 ⟨hqueued, hne⟩
      have hjob := (h.queued job hqueued).1
      exact .inl ⟨.inl ⟨howner, haccepted, hjob.unfinished⟩, hjob.unanswered⟩
    · rcases h.gone job haccepted hqueued hthread with ⟨hdropped, hno⟩ | ⟨hnot, hmem, hcount⟩
      · exact .inl ⟨.inr hdropped, hno⟩
      · exact .inr ⟨fun hends => hends.elim (fun hends => hends.2.2 hmem) hnot, hmem, hcount⟩

theorem supersede_some {queue queue' : List SearchJob}
    (h : SearchWorker.supersede job queue = some queue') :
    ∃ before old after, queue = before ++ old :: after ∧ old.owner = job.owner ∧
      queue' = before ++ job :: after := by
  induction queue generalizing queue' with
  | nil => cases h
  | cons queued rest ih =>
    rw [SearchWorker.supersede] at h
    split at h
    · rename_i howner
      exact ⟨[], queued, rest, rfl, howner, (Option.some.inj h).symm⟩
    · obtain ⟨rest', hrest, rfl⟩ := Option.map_eq_some_iff.1 h
      obtain ⟨before, old, after, rfl, howner, rfl⟩ := ih hrest
      exact ⟨queued :: before, old, after, rfl, howner, rfl⟩

theorem supersede_none {queue : List SearchJob} (h : SearchWorker.supersede job queue = none) :
    ∀ queued ∈ queue, queued.owner ≠ job.owner := by
  induction queue with
  | nil => exact fun _ hmem => nomatch hmem
  | cons queued rest ih =>
    rw [SearchWorker.supersede] at h
    split at h
    · cases h
    · rename_i howner
      rw [Option.map_eq_none_iff] at h
      exact forall_mem_cons.2 ⟨howner, ih h⟩

/-- A search takes its owner's turn, is last, or is refused; a running one of the owner is
    cancelled. -/
theorem submit_cases (w : SearchWorker) (job : SearchJob) :
    ∃ queued queue, w.submit job =
        (queued, { w with queue, cancelRunning := w.cancelRunning || w.runs job.owner }) ∧
      ((queued = true ∧ ∃ before old after, w.queue = before ++ old :: after ∧
          old.owner = job.owner ∧ queue = before ++ job :: after) ∨
        (∀ other ∈ w.queue, other.owner ≠ job.owner) ∧
          ((queued = false ∧ queue = w.queue) ∨
            queued = true ∧ queue = w.queue ++ [job] ∧
              w.queue.length < SearchWorker.kMaxQueued)) := by
  unfold SearchWorker.submit
  dsimp only
  split
  · rename_i queue hqueue
    exact ⟨_, _, rfl, .inl ⟨rfl, supersede_some hqueue⟩⟩
  · rename_i hqueue
    split
    · exact ⟨_, _, rfl, .inr ⟨supersede_none hqueue, .inl ⟨rfl, rfl⟩⟩⟩
    · rename_i hcap
      exact ⟨_, _, rfl, .inr ⟨supersede_none hqueue, .inr ⟨rfl, rfl, Nat.lt_of_not_ge hcap⟩⟩⟩

theorem WorkerInv.submit (h : WorkerInv r) (ho : owner ≠ 0) {r' : WorkerRun}
    (hr' : r.perform (.submit owner) = some r') : WorkerInv r' := by
  obtain ⟨queued, queue, hsubmit, hcases⟩ := submit_cases r.worker ⟨owner, r.submitted⟩
  dsimp only [WorkerRun.perform] at hr'
  rw [hsubmit] at hr'
  cases Option.some.inj hr'
  have hnew : ∀ job accepted, SearchEvent.submitted ⟨owner, r.submitted⟩ queued =
      .submitted job accepted →
      job.owner = owner ∧ job.done = r.submitted ∧ r.submitted < r.submitted + 1 := by
    rintro job accepted heq
    cases heq
    exact ⟨rfl, rfl, Nat.lt_succ_self _⟩
  have howners := h.owners
  have hcap := h.cap
  rcases hcases with ⟨rfl, before, old, after, hold, howner, rfl⟩ |
    ⟨hothers, ⟨rfl, rfl⟩ | ⟨rfl, rfl, hroom⟩⟩
  · -- in the place of the owner's search, the only one that it has there
    have hmap : (before ++ ⟨owner, r.submitted⟩ :: after).map (·.owner) =
        r.worker.queue.map (·.owner) := by
      rw [hold, map_append, map_append, map_cons, map_cons, howner]
    have hothers : ∀ job ∈ before ++ after, job.owner ≠ owner := by
      rw [hold, (perm_middle.map _).nodup_iff, map_cons, nodup_cons] at howners
      intro job hmem heq
      exact howners.1 (mem_map.2 ⟨job, hmem, heq.trans howner.symm⟩)
    refine h.ended ho rfl (Nat.le_succ _) hnew ?_ (by rw [hmap]; exact howners) ?_
    · intro job
      rw [hold, SearchEvent.submitted.injEq, and_iff_left rfl]
      simp only [mem_append, mem_cons] at hothers ⊢
      constructor
      · rintro (hmem | rfl | hmem)
        · exact .inl ⟨.inl hmem, hothers job (.inl hmem)⟩
        · exact .inr rfl
        · exact .inl ⟨.inr (.inr hmem), hothers job (.inr hmem)⟩
      · rintro (⟨hmem | rfl | hmem, hne⟩ | rfl)
        · exact .inl hmem
        · exact absurd howner hne
        · exact .inr (.inr hmem)
        · exact .inr (.inl rfl)
    · have hlength := congrArg List.length hmap
      rw [length_map, length_map] at hlength
      rw [hlength]
      exact hcap
  · -- refused: its owner has no search in the queue
    refine h.ended ho rfl (Nat.le_succ _) hnew ?_ howners hcap
    intro job
    constructor
    · exact fun hmem => .inl ⟨hmem, hothers job hmem⟩
    · rintro (⟨hmem, _⟩ | heq)
      · exact hmem
      · cases heq
  · refine h.ended ho rfl (Nat.le_succ _) hnew ?_ ?_ ?_
    · intro job
      rw [mem_append, mem_singleton, SearchEvent.submitted.injEq, and_iff_left rfl,
        eq_comm]
      exact or_congr_left (iff_self_and.2 fun hmem => hothers job hmem)
    · rw [map_append, nodup_append]
      refine ⟨howners, pairwise_singleton _ _, ?_⟩
      rintro o ho' o' hnew rfl
      obtain ⟨job, hmem, rfl⟩ := mem_map.1 ho'
      exact hothers job hmem (mem_singleton.1 hnew)
    · rw [length_append, length_singleton]
      exact hroom

theorem WorkerInv.cancel (h : WorkerInv r) (ho : owner ≠ 0) {r' : WorkerRun}
    (hr' : r.perform (.cancel owner) = some r') : WorkerInv r' := by
  cases Option.some.inj hr'
  refine h.ended ho rfl (Nat.le_refl _) nofun ?_ ?_ ?_
  · intro job
    rw [mem_filter, decide_eq_true_eq, or_iff_left nofun]
  · exact h.owners.sublist (filter_sublist.map _)
  · exact Nat.le_trans (length_filter_le _ _) h.cap

/-! ## The thread -/

theorem WorkerInv.finished (h : WorkerInv r) (hat : r.worker.thread = .executed job)
    (hjob : Open job r.log) (hmem : job ∉ r.worker.queue)
    (hcancel : r.worker.cancelRunning = true ↔ Dropped job r.log) :
    WorkerInv
      { r with
        worker := { r.worker with
          runningOwner := 0, cancelRunning := false
          thread := .finished job r.worker.cancelRunning }
        log := .finished job :: r.log } := by
  have hsubmitted : ∀ other queued, SearchEvent.submitted other queued ∈ .finished job :: r.log ↔
      .submitted other queued ∈ r.log := by
    intro other queued
    rw [mem_cons, or_iff_right nofun]
  have hdelivered : ∀ other, SearchEvent.delivered other ∈ .finished job :: r.log ↔
      .delivered other ∈ r.log := by
    intro other
    rw [mem_cons, or_iff_right nofun]
  refine
    { fresh := fun other queued hmem => h.fresh other queued ((hsubmitted other queued).1 hmem)
      owned := fun other queued hmem => h.owned other queued ((hsubmitted other queued).1 hmem)
      asked := ?_
      owners := h.owners
      cap := h.cap
      queued := ?_
      thread := ?_
      gone := ?_ }
  · intro other hother
    rw [hdelivered, mem_cons, SearchEvent.finished.injEq, or_assoc] at hother
    rw [hsubmitted]
    rcases hother with rfl | hother
    · exact hjob.accepted
    · exact h.asked other hother
  · intro other hother
    obtain ⟨hopen, hnot⟩ := h.queued other hother
    refine ⟨⟨(hsubmitted other true).2 hopen.accepted, ?_, mt (hdelivered other).1 hopen.unanswered⟩,
      mt (dropped_cons_of_not_ends rfl).1 hnot⟩
    rw [mem_cons, SearchEvent.finished.injEq]
    rintro (rfl | hfinished)
    · exact hmem hother
    · exact hopen.unfinished hfinished
  · exact ⟨rfl, (hsubmitted job true).2 hjob.accepted, mem_cons_self,
      mt (hdelivered job).1 hjob.unanswered, hcancel.trans (dropped_cons_of_not_ends rfl).symm⟩
  · intro other haccepted hother hne
    rw [hsubmitted] at haccepted
    rw [dropped_cons_of_not_ends rfl, hdelivered,
      count_cons_of_ne (fun heq => SearchEvent.noConfusion heq)]
    refine (h.gone other haccepted hother ?_).imp_right fun hgone =>
      ⟨hgone.1, mem_cons_of_mem _ hgone.2.1, hgone.2.2⟩
    rw [hat]
    exact hne

theorem WorkerInv.delivered (h : WorkerInv r) (hat : r.worker.thread = .finished job false)
    (hidle : r.worker.runningOwner = 0) (haccepted : .submitted job true ∈ r.log)
    (hfinished : .finished job ∈ r.log) (hunanswered : .delivered job ∉ r.log)
    (hnot : ¬ Dropped job r.log) :
    WorkerInv
      { r with worker := { r.worker with thread := .waiting }, log := .delivered job :: r.log } := by
  have hsubmitted : ∀ other queued, SearchEvent.submitted other queued ∈ .delivered job :: r.log ↔
      .submitted other queued ∈ r.log := by
    intro other queued
    rw [mem_cons, or_iff_right nofun]
  have hmem_finished : ∀ other, SearchEvent.finished other ∈ .delivered job :: r.log ↔
      .finished other ∈ r.log := by
    intro other
    rw [mem_cons, or_iff_right nofun]
  refine
    { fresh := fun other queued hmem => h.fresh other queued ((hsubmitted other queued).1 hmem)
      owned := fun other queued hmem => h.owned other queued ((hsubmitted other queued).1 hmem)
      asked := ?_
      owners := h.owners
      cap := h.cap
      queued := ?_
      thread := hidle
      gone := ?_ }
  · intro other hother
    rw [hmem_finished, mem_cons, SearchEvent.delivered.injEq, or_left_comm] at hother
    rw [hsubmitted]
    rcases hother with rfl | hother
    · exact haccepted
    · exact h.asked other hother
  · intro other hother
    obtain ⟨hopen, hnot⟩ := h.queued other hother
    refine ⟨⟨(hsubmitted other true).2 hopen.accepted, mt (hmem_finished other).1 hopen.unfinished,
      ?_⟩, mt (dropped_cons_of_not_ends rfl).1 hnot⟩
    rw [mem_cons, SearchEvent.delivered.injEq]
    rintro (rfl | hdelivered)
    · exact hopen.unfinished hfinished
    · exact hopen.unanswered hdelivered
  · intro other haccepted hother _
    rw [hsubmitted] at haccepted
    rw [dropped_cons_of_not_ends rfl, hmem_finished]
    by_cases heq : other = job
    · rw [heq, count_cons_self, count_eq_zero_of_not_mem hunanswered]
      exact .inr ⟨hnot, hfinished, rfl⟩
    · have hne : SearchEvent.delivered job ≠ .delivered other := fun hsame =>
        heq (SearchEvent.delivered.inj hsame).symm
      rw [count_cons_of_ne hne, mem_cons, or_iff_right hne.symm]
      refine h.gone other haccepted hother ?_
      rw [hat]
      exact fun hsome => heq (Option.some.inj hsome).symm

inductive ThreadStep (r : WorkerRun) : WorkerRun → Prop
  | taken (job : SearchJob) (queue : List SearchJob) (hat : r.worker.thread = .waiting)
      (hqueue : r.worker.queue = job :: queue) :
      ThreadStep r { r with worker :=
        { queue, runningOwner := job.owner, cancelRunning := false, thread := .executing job } }
  | executed (job : SearchJob) (hat : r.worker.thread = .executing job) :
      ThreadStep r { r with worker := { r.worker with thread := .executed job } }
  | finished (job : SearchJob) (hat : r.worker.thread = .executed job) :
      ThreadStep r
        { r with
          worker := { r.worker with
            runningOwner := 0, cancelRunning := false
            thread := .finished job r.worker.cancelRunning }
          log := .finished job :: r.log }
  | withheld (job : SearchJob) (hat : r.worker.thread = .finished job true) :
      ThreadStep r { r with worker := { r.worker with thread := .waiting } }
  | delivered (job : SearchJob) (hat : r.worker.thread = .finished job false) :
      ThreadStep r
        { r with worker := { r.worker with thread := .waiting }, log := .delivered job :: r.log }

theorem threadStep_of_run {r' : WorkerRun} (hr' : r.perform .run = some r') : ThreadStep r r' := by
  obtain ⟨⟨answered, worker⟩, hrun, rfl⟩ := Option.map_eq_some_iff.1 hr'
  unfold SearchWorker.run at hrun
  dsimp only
  rw [WorkerRun.told.eq_def]
  cases hat : r.worker.thread with
  | waiting =>
    rw [hat] at hrun
    dsimp only at hrun
    cases hqueue : r.worker.queue with
    | nil =>
      rw [hqueue] at hrun
      cases hrun
    | cons job queue =>
      rw [hqueue] at hrun
      cases hrun
      exact .taken job queue hat hqueue
  | executing job =>
    rw [hat] at hrun
    cases hrun
    exact .executed job hat
  | executed job =>
    rw [hat] at hrun
    cases hrun
    exact .finished job hat
  | finished job cancelled =>
    rw [hat] at hrun
    cases hrun
    cases cancelled with
    | true => exact .withheld job hat
    | false => exact .delivered job hat

theorem WorkerInv.run (h : WorkerInv r) {r' : WorkerRun} (hr' : r.perform .run = some r') :
    WorkerInv r' := by
  have hthread := h.thread
  cases threadStep_of_run hr' with
  | taken job queue hat hqueue =>
    have howners := h.owners
    rw [hqueue, map_cons, nodup_cons] at howners
    have hqueued : ∀ other, other ∈ job :: queue → Open other r.log ∧ ¬ Dropped other r.log := by
      rw [← hqueue]
      exact h.queued
    have hjob := hqueued job mem_cons_self
    have hcap := h.cap
    rw [hqueue, length_cons] at hcap
    exact
      { fresh := h.fresh
        owned := h.owned
        asked := h.asked
        owners := howners.2
        cap := Nat.le_of_succ_le hcap
        queued := fun other hmem => hqueued other (mem_cons_of_mem _ hmem)
        thread := ⟨rfl, hjob.1, fun hmem => howners.1 (mem_map_of_mem hmem),
          ⟨nofun, fun hdropped => absurd hdropped hjob.2⟩⟩
        gone := fun other haccepted hmem hne => by
          refine h.gone other haccepted ?_ ?_
          · rw [hqueue, mem_cons, not_or]
            exact ⟨fun heq => hne (congrArg some heq.symm), hmem⟩
          · rw [hat]
            exact nofun }
  | executed job hat =>
    rw [hat] at hthread
    refine { h with thread := hthread, gone := fun other haccepted hmem hne => ?_ }
    refine h.gone other haccepted hmem ?_
    rw [hat]
    exact hne
  | finished job hat =>
    rw [hat] at hthread
    obtain ⟨_, hjob, hmem, hcancel⟩ := hthread
    exact h.finished hat hjob hmem hcancel
  | withheld job hat =>
    rw [hat] at hthread
    obtain ⟨hidle, _, _, hunanswered, hcancel⟩ := hthread
    refine { h with thread := hidle, gone := fun other haccepted hmem _ => ?_ }
    by_cases heq : other = job
    · rw [heq]
      exact .inl ⟨hcancel.1 rfl, hunanswered⟩
    · refine h.gone other haccepted hmem ?_
      rw [hat]
      exact fun hsome => heq (Option.some.inj hsome).symm
  | delivered job hat =>
    rw [hat] at hthread
    obtain ⟨hidle, haccepted, hfinished, hunanswered, hcancel⟩ := hthread
    exact h.delivered hat hidle haccepted hfinished hunanswered fun hdropped =>
      nomatch hcancel.2 hdropped

theorem WorkerInv.step (h : WorkerInv r) {a : WorkerAct} {r' : WorkerRun}
    (hstep : searchWorkers.step r a r') : WorkerInv r' := by
  obtain ⟨howned, hr'⟩ := hstep
  cases a with
  | submit owner => exact h.submit howned hr'
  | cancel owner => exact h.cancel howned hr'
  | run => exact h.run hr'

theorem WorkerInv.of_reachable (h : searchWorkers.Reachable r) : WorkerInv r :=
  System.reachable_invariant (fun _ hinit => hinit ▸ .init) (fun _ _ _ hs hstep => hs.step hstep) h

/-! ## Every search gets its turn -/

/-- The steps that the thread has yet to make with its search. -/
def SearchThread.stepsLeft : SearchThread → Nat
  | waiting => 0
  | executing _ => 3
  | executed _ => 2
  | finished .. => 1

def stepsPerSearch : Nat := 4

/-- The steps of the thread until it is done with a search. -/
def WorkerRun.stepsUntil (r : WorkerRun) (job : SearchJob) : Nat :=
  r.worker.thread.stepsLeft +
    if job ∈ r.worker.queue then stepsPerSearch * (r.worker.queue.idxOf job + 1) else 0

theorem WorkerInv.stepsUntil_lt (h : WorkerInv r) :
    r.stepsUntil job < stepsPerSearch * (SearchWorker.kMaxQueued + 1) := by
  have hcap := h.cap
  have hleft : r.worker.thread.stepsLeft < stepsPerSearch := by
    unfold stepsPerSearch
    cases r.worker.thread <;> simp only [SearchThread.stepsLeft] <;> omega
  unfold WorkerRun.stepsUntil
  unfold stepsPerSearch at hleft ⊢
  split
  · rename_i hmem
    have hindex := idxOf_lt_length_of_mem hmem
    omega
  · omega

theorem idxOf_filter_le {queue : List SearchJob} {p : SearchJob → Bool} (hp : p job = true) :
    (queue.filter p).idxOf job ≤ queue.idxOf job := by
  induction queue with
  | nil => exact Nat.le_refl _
  | cons queued rest ih =>
    by_cases heq : queued = job
    · rw [heq, filter_cons_of_pos hp, idxOf_cons_self]
      exact Nat.zero_le _
    · rw [idxOf_cons_ne _ heq]
      by_cases hqueued : p queued = true
      · rw [filter_cons_of_pos hqueued, idxOf_cons_ne _ heq]
        exact Nat.succ_le_succ ih
      · rw [filter_cons_of_neg hqueued]
        exact Nat.le_succ_of_le ih

theorem stepsUntil_le_of_queue {r r' : WorkerRun} (hthread : r'.worker.thread = r.worker.thread)
    (hmem : job ∈ r'.worker.queue → job ∈ r.worker.queue ∧
      r'.worker.queue.idxOf job ≤ r.worker.queue.idxOf job) :
    r'.stepsUntil job ≤ r.stepsUntil job := by
  unfold WorkerRun.stepsUntil stepsPerSearch
  rw [hthread]
  split
  · rename_i hmem'
    obtain ⟨hmem, hle⟩ := hmem hmem'
    rw [if_pos hmem]
    omega
  · exact Nat.add_le_add_left (Nat.zero_le _) _

theorem WorkerInv.queue_nodup (h : WorkerInv r) : r.worker.queue.Nodup :=
  List.Pairwise.of_map _ (fun _ _ hne heq => hne (congrArg _ heq)) h.owners

theorem stepsUntil_submit (h : WorkerInv r) {r' : WorkerRun}
    (hr' : r.perform (.submit owner) = some r') (haccepted : .submitted job true ∈ r.log) :
    r'.stepsUntil job ≤ r.stepsUntil job := by
  obtain ⟨queued, queue, hsubmit, hcases⟩ := submit_cases r.worker ⟨owner, r.submitted⟩
  dsimp only [WorkerRun.perform] at hr'
  rw [hsubmit] at hr'
  cases Option.some.inj hr'
  have hne : ⟨owner, r.submitted⟩ ≠ job := by
    rintro rfl
    exact Nat.lt_irrefl _ (h.fresh _ _ haccepted)
  refine stepsUntil_le_of_queue rfl fun hmem => ?_
  dsimp only at hmem ⊢
  rcases hcases with ⟨_, before, old, after, hold, _, rfl⟩ | ⟨_, ⟨_, rfl⟩ | ⟨_, rfl, _⟩⟩
  · rw [mem_append, mem_cons, or_iff_right hne.symm] at hmem
    rw [hold]
    by_cases hbefore : job ∈ before
    · rw [idxOf_append_of_mem hbefore, idxOf_append_of_mem hbefore]
      exact ⟨mem_append_left _ hbefore, Nat.le_refl _⟩
    · have hafter := hmem.resolve_left hbefore
      rw [idxOf_append_of_notMem hbefore, idxOf_append_of_notMem hbefore,
        idxOf_cons_ne _ hne]
      have hnodup := h.queue_nodup
      rw [hold] at hnodup
      have hold : old ≠ job := by
        rintro rfl
        exact (nodup_cons.1 (nodup_append.1 hnodup).2.1).1 hafter
      rw [idxOf_cons_ne _ hold]
      exact ⟨mem_append_right _ (mem_cons_of_mem _ hafter), Nat.le_refl _⟩
  · exact ⟨hmem, Nat.le_refl _⟩
  · have hmem := (mem_append.1 hmem).resolve_right fun heq =>
      hne (mem_singleton.1 heq).symm
    exact ⟨hmem, Nat.le_of_eq (idxOf_append_of_mem hmem)⟩

theorem stepsUntil_cancel {r' : WorkerRun} (hr' : r.perform (.cancel owner) = some r') :
    r'.stepsUntil job ≤ r.stepsUntil job := by
  cases Option.some.inj hr'
  refine stepsUntil_le_of_queue rfl fun hmem => ?_
  have hmem := mem_filter.1 hmem
  exact ⟨hmem.1, idxOf_filter_le hmem.2⟩

theorem stepsUntil_run (h : WorkerInv r) {r' : WorkerRun} (hr' : r.perform .run = some r')
    (hplaced : job ∈ r.worker.queue ∨ r.worker.thread.job? = some job) :
    r'.stepsUntil job + 1 ≤ r.stepsUntil job := by
  unfold WorkerRun.stepsUntil stepsPerSearch
  cases threadStep_of_run hr' with
  | taken next queue hat hqueue =>
    rw [hat] at hplaced ⊢
    have hmem := hplaced.resolve_right nofun
    have hnodup := h.queue_nodup
    rw [hqueue] at hmem hnodup ⊢
    rw [if_pos hmem]
    dsimp only [SearchThread.stepsLeft]
    split
    · rename_i hmem
      have hne : next ≠ job := by
        rintro rfl
        exact (nodup_cons.1 hnodup).1 hmem
      rw [idxOf_cons_ne _ hne]
      omega
    · omega
  | executed job' hat | finished job' hat | withheld job' hat | delivered job' hat =>
    rw [hat]
    dsimp only [SearchThread.stepsLeft]
    omega

theorem log_of_step {a : WorkerAct} {r' : WorkerRun} (hr' : r.perform a = some r') :
    ∃ new, r'.log = new ++ r.log := by
  cases a with
  | submit owner =>
    cases Option.some.inj hr'
    exact ⟨[_], rfl⟩
  | cancel owner =>
    cases Option.some.inj hr'
    exact ⟨[_], rfl⟩
  | run =>
    cases threadStep_of_run hr' with
    | taken | executed | withheld => exact ⟨[], rfl⟩
    | finished | delivered => exact ⟨[_], rfl⟩

theorem Dropped.append (h : Dropped job log) (new : List SearchEvent) : Dropped job (new ++ log) := by
  induction new with
  | nil => exact h
  | cons e new ih => exact .inr ih

theorem WorkerInv.placed (h : WorkerInv r) (haccepted : .submitted job true ∈ r.log)
    (hnot : ¬ (Dropped job r.log ∨ .delivered job ∈ r.log)) :
    job ∈ r.worker.queue ∨ r.worker.thread.job? = some job := by
  by_contra hgone
  rw [not_or] at hgone
  rcases h.gone job haccepted hgone.1 hgone.2 with ⟨hdropped, _⟩ | ⟨_, _, hcount⟩
  · exact hnot (.inl hdropped)
  · exact hnot (.inr (count_pos_iff.1 (by rw [hcount]; exact Nat.one_pos)))

theorem WorkerInv.of_delivered (h : WorkerInv r) (hmem : .delivered job ∈ r.log) :
    ¬ Dropped job r.log ∧ r.log.count (.delivered job) = 1 := by
  have hqueue : job ∉ r.worker.queue := fun hqueued => (h.queued job hqueued).1.unanswered hmem
  have hthread : r.worker.thread.job? ≠ some job := by
    have hthread := h.thread
    intro hjob
    cases hat : r.worker.thread with
    | waiting =>
      rw [hat] at hjob
      cases hjob
    | executing other | executed other =>
      rw [hat] at hjob hthread
      cases hjob
      exact hthread.2.1.unanswered hmem
    | finished other cancelled =>
      rw [hat] at hjob hthread
      cases hjob
      exact hthread.2.2.2.1 hmem
  rcases h.gone job (h.asked job (.inr hmem)) hqueue hthread with ⟨_, hno⟩ | ⟨hnot, _, hcount⟩
  · exact absurd hmem hno
  · exact ⟨hnot, hcount⟩

theorem told_append (hdone : Dropped job log ∨ .delivered job ∈ log) (new : List SearchEvent) :
    Dropped job (new ++ log) ∨ .delivered job ∈ new ++ log :=
  hdone.imp (fun hdropped => hdropped.append new) fun hmem => mem_append_right _ hmem

/-- After the steps of as many searches as are queued, and one more, a search is dropped or
    answered. -/
theorem WorkerInv.answered (hr : searchWorkers.Reachable r) (haccepted : .submitted job true ∈ r.log)
    {acts : List WorkerAct} {r' : WorkerRun} (hruns : searchWorkers.Runs r acts r')
    (henough : stepsPerSearch * (SearchWorker.kMaxQueued + 1) ≤ acts.count .run) :
    Dropped job r'.log ∨ .delivered job ∈ r'.log := by
  have hsteps : r.stepsUntil job < acts.countP (· == .run) :=
    Nat.lt_of_lt_of_le (WorkerInv.of_reachable hr).stepsUntil_lt henough
  refine System.Runs.of_rank (fun r => WorkerInv r ∧ .submitted job true ∈ r.log)
    (fun r => Dropped job r.log ∨ .delivered job ∈ r.log) (fun r => r.stepsUntil job) (· == .run)
    ?_ ?_ ?_ ⟨.of_reachable hr, haccepted⟩ hruns hsteps
  · rintro s a s' ⟨hs, haccepted⟩ hstep
    obtain ⟨new, hnew⟩ := log_of_step hstep.2
    rw [hnew]
    exact ⟨hs.step hstep, mem_append_right _ haccepted⟩
  · intro s a s' hstep hdone
    obtain ⟨new, hnew⟩ := log_of_step hstep.2
    rw [hnew]
    exact told_append hdone new
  · rintro s a s' ⟨hs, haccepted⟩ ⟨_, hstep⟩ hnot
    cases a with
    | submit owner => exact stepsUntil_submit hs hstep haccepted
    | cancel owner => exact stepsUntil_cancel hstep
    | run =>
      obtain ⟨new, hnew⟩ := log_of_step hstep
      rw [hnew] at hnot
      exact stepsUntil_run hs hstep (hs.placed haccepted fun hdone => hnot (told_append hdone new))

theorem run_eq_none : r.perform .run = none ↔ r.worker.thread = .waiting ∧ r.worker.queue = [] := by
  rw [WorkerRun.perform, Option.map_eq_none_iff, SearchWorker.run]
  split
  · rename_i hat
    rw [and_iff_right hat]
    split
    · exact iff_of_true rfl ‹_›
    · rename_i hqueue
      rw [hqueue]
      exact iff_of_false nofun nofun
  all_goals
    rename_i hat
    rw [hat]
    exact iff_of_false nofun fun h => nomatch h.1

/-- In every run an owner has one queued search at most, and the queue is within its bound; a
    callback is invoked once at most, never for a superseded or cancelled search. Every other
    accepted search is answered: the thread goes on while there is one, and takes only so many
    steps, whatever else comes. -/
theorem search_worker_delivery (hr : searchWorkers.Reachable r) :
    (r.worker.queue.map (·.owner)).Nodup ∧
    r.worker.queue.length ≤ SearchWorker.kMaxQueued ∧
    (∀ job, r.log.count (.delivered job) ≤ 1) ∧
    (∀ job, Dropped job r.log → .delivered job ∉ r.log) ∧
    (∀ job, .submitted job true ∈ r.log → ¬ Dropped job r.log → .delivered job ∉ r.log →
      r.perform .run ≠ none) ∧
    ∀ job, .submitted job true ∈ r.log → ∀ acts r', searchWorkers.Runs r acts r' →
      stepsPerSearch * (SearchWorker.kMaxQueued + 1) ≤ acts.count .run →
        ¬ Dropped job r'.log → .delivered job ∈ r'.log := by
  have h := WorkerInv.of_reachable hr
  refine ⟨h.owners, h.cap, ?_, ?_, ?_, ?_⟩
  · intro job
    by_cases hmem : .delivered job ∈ r.log
    · exact Nat.le_of_eq (h.of_delivered hmem).2
    · rw [List.count_eq_zero_of_not_mem hmem]
      exact Nat.zero_le _
  · exact fun job hdropped hmem => (h.of_delivered hmem).1 hdropped
  · intro job haccepted hnot hunanswered hnone
    obtain ⟨hat, hqueue⟩ := run_eq_none.1 hnone
    have hplaced := h.placed haccepted (not_or.2 ⟨hnot, hunanswered⟩)
    rw [hat, hqueue] at hplaced
    exact hplaced.elim nofun nofun
  · intro job haccepted acts r' hruns henough hnot
    exact (WorkerInv.answered hr haccepted hruns henough).resolve_left hnot

/-- A session's search runs, and its next one is queued. -/
def supersededRun : WorkerRun where
  worker :=
    { queue := [⟨1, 1⟩], runningOwner := 1, cancelRunning := true, thread := .executing ⟨1, 0⟩ }
  log := [.submitted ⟨1, 1⟩ true, .submitted ⟨1, 0⟩ true]
  submitted := 2

theorem supersededRun_reachable : searchWorkers.Reachable supersededRun :=
  have hsubmitted : searchWorkers.Reachable ⟨{ queue := [⟨1, 0⟩] }, [.submitted ⟨1, 0⟩ true], 1⟩ :=
    .step (.submit 1) (.init rfl) ⟨Nat.one_ne_zero, rfl⟩
  .step (.submit 1) (.step .run hsubmitted ⟨trivial, rfl⟩) ⟨Nat.one_ne_zero, rfl⟩

theorem search_worker_delivery_supersededRun :
    Dropped ⟨1, 0⟩ supersededRun.log ∧ .delivered ⟨1, 0⟩ ∉ supersededRun.log :=
  have hdropped : Dropped ⟨1, 0⟩ supersededRun.log := .inl ⟨rfl, List.mem_singleton_self _, by decide⟩
  ⟨hdropped, (search_worker_delivery supersededRun_reachable).2.2.2.1 _ hdropped⟩

end Decibell
