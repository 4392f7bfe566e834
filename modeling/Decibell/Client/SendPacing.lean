import Decibell.Lib.Run
import Decibell.Lib.TokenBucket
import Mathlib.Algebra.Order.Ring.Rat
import Mathlib.Data.List.Nodup
import Mathlib.Data.Rat.Floor

/-!
# Send pacing

A community admits the messages of a session from a bucket of tokens. The client has a mirror of it:
a send waits in its server's pacer until there is a token, and a timer drains what waits. The pacer
is dropped when the community authenticates; the timer of a dropped one still drains it.
-/

namespace Decibell.SendPacing

open Lib List

/-! ## Pacers -/

def burst : ℚ := 10

def refillPerSec : ℚ := 27 / 10

/-- A send, numbered in the order of the calls of `paceSend`. -/
abbrev Task := Nat

structure Pacer where
  tokens : ℚ
  last : ℚ
  queue : List Task := []
  draining : Bool := false
  /-- When the timer of a draining pacer is due. -/
  due : ℚ := 0

namespace Pacer

def refill (now : ℚ) (p : Pacer) : Pacer :=
  { p with tokens := min burst (p.tokens + (now - p.last) / 1000 * refillPerSec), last := now }

/-- The loop of `drain`: the tasks that start, the tokens and tasks left. -/
def startTasks : List Task → ℚ → List Task × ℚ × List Task
  | [], tokens => ([], tokens, [])
  | task :: queue, tokens =>
    if 1 ≤ tokens then
      let (started, tokens, left) := startTasks queue (tokens - 1)
      (task :: started, tokens, left)
    else ([], tokens, task :: queue)

/-- How long the timer waits for the next token. -/
def waitMs (tokens : ℚ) : ℚ := max 10 ⌈(1 - tokens) / refillPerSec * 1000⌉

/-- `step` of `drain`, on the call and each timer: what starts, and the pacer. -/
def step (now : ℚ) (p : Pacer) : List Task × Pacer :=
  let r := startTasks p.queue (p.refill now).tokens
  let p := { p.refill now with tokens := r.2.1, queue := r.2.2 }
  if r.2.2 = [] then (r.1, { p with draining := false })
  else (r.1, { p with draining := true, due := now + waitMs r.2.1 })

def drain (now : ℚ) (p : Pacer) : List Task × Pacer :=
  if p.draining then ([], p) else p.step now

end Pacer

/-! ## Runs -/

/-- A server, and how often its pacing was reset. -/
abbrev Session := String × Nat

structure Start where
  session : Session
  task : Task
  time : ℚ
deriving DecidableEq

structure Pacing where
  now : ℚ := 0
  /-- Every pacer made; a server has its last session's, the others were dropped. -/
  pacers : Session → Option Pacer := fun _ => none
  resets : String → Nat := fun _ => 0
  /-- The sends so far, each with its session. -/
  sends : List (Session × Task) := []
  starts : List Start := []

inductive Event
  | wait (ms : ℚ)
  | paceSend (serverId : String)
  /-- The timer of a pacer, the server's own or a dropped one. -/
  | timer (session : Session)
  | resetSendPacing (serverId : String)

namespace Pacing

variable (s : Pacing)

def pacerFor (session : Session) : Pacer :=
  (s.pacers session).getD { tokens := burst, last := s.now }

/-- A pacer's tasks start now. -/
def ran (session : Session) (r : List Task × Pacer) : Pacing :=
  { s with
    pacers := Function.update s.pacers session (some r.2)
    starts := s.starts ++ r.1.map fun task => ⟨session, task, s.now⟩ }

def paceSend (serverId : String) : Pacing :=
  let session := (serverId, s.resets serverId)
  let p := s.pacerFor session
  let task := s.sends.length
  { s with sends := s.sends ++ [(session, task)] }.ran session
    ({ p with queue := p.queue ++ [task] }.drain s.now)

def resetSendPacing (serverId : String) : Pacing :=
  { s with resets := Function.update s.resets serverId (s.resets serverId + 1) }

/-- The state after an event; none for a timer not set or not due, or if time goes back. -/
def apply : Event → Option Pacing
  | .wait ms => if 0 ≤ ms then some { s with now := s.now + ms } else none
  | .paceSend serverId => some (s.paceSend serverId)
  | .timer session =>
    match s.pacers session with
    | some p => if p.draining ∧ p.due ≤ s.now then some (s.ran session (p.step s.now)) else none
    | none => none
  | .resetSendPacing serverId => some (s.resetSendPacing serverId)

end Pacing

def system : System Pacing Event where
  init s := s = {}
  step s e s' := s.apply e = some s'

/-! ## What is paced -/

namespace Pacing

variable (s : Pacing) (of : Session → Bool)

/-- The tasks of some sessions in the order they were sent. -/
def sentIn : List Task := (s.sends.filter fun e => of e.1).map (·.2)

/-- The tasks of some sessions in the order they started. -/
def startedIn : List Task := (s.starts.filter fun e => of e.session).map (·.task)

def timesIn : List ℚ := (s.starts.filter fun e => of e.session).map (·.time)

/-- The tasks start in order, each once at most, no faster than the bucket admits. -/
structure Paced : Prop where
  order : s.startedIn of <+: s.sentIn of
  once : (s.startedIn of).Nodup
  rate : TokenBucket.Within burst (refillPerSec / 1000) (s.timesIn of)

end Pacing

/-! ## One pacer -/

def ratePerMs : ℚ := refillPerSec / 1000

theorem ratePerMs_pos : 0 < ratePerMs := by norm_num [ratePerMs, refillPerSec]

def Pacer.bucket (p : Pacer) : TokenBucket ℚ := ⟨p.tokens, p.last⟩

/-- What waits in a pacer has a timer, for when there is a token. -/
structure Pacer.Sound (times : List ℚ) (p : Pacer) : Prop where
  accounts : TokenBucket.Accounts burst ratePerMs times p.bucket
  draining_iff : p.draining ↔ p.queue ≠ []
  due : p.draining → 1 ≤ p.tokens + (p.due - p.last) * ratePerMs

namespace Pacer

theorem startTasks_append (queue : List Task) (tokens : ℚ) :
    (startTasks queue tokens).1 ++ (startTasks queue tokens).2.2 = queue := by
  induction queue generalizing tokens with
  | nil => rfl
  | cons task queue ih =>
    rw [startTasks]
    split
    · exact congrArg (task :: ·) (ih (tokens - 1))
    · rfl

theorem startTasks_ne_nil {queue : List Task} {tokens : ℚ} (hqueue : queue ≠ []) (h : 1 ≤ tokens) :
    (startTasks queue tokens).1 ≠ [] := by
  obtain ⟨task, queue, rfl⟩ := exists_cons_of_ne_nil hqueue
  rw [startTasks, if_pos h]
  exact cons_ne_nil _ _

theorem accounts_startTasks {times : List ℚ} {tokens now : ℚ} (queue : List Task)
    (h : TokenBucket.Accounts burst ratePerMs times ⟨tokens, now⟩) :
    TokenBucket.Accounts burst ratePerMs
      (times ++ (startTasks queue tokens).1.map fun _ => now)
      ⟨(startTasks queue tokens).2.1, now⟩ := by
  induction queue generalizing times tokens with
  | nil => simpa [startTasks] using h
  | cons task queue ih =>
    rw [startTasks]
    split
    · rename_i htoken
      have := ih (h.take ratePerMs_pos.le htoken)
      rwa [append_assoc] at this
    · simpa using h

theorem since_last (now last : ℚ) :
    (now - last) / 1000 * refillPerSec = (now - last) * ratePerMs := by
  rw [ratePerMs]
  ring

theorem refill_bucket (now : ℚ) (p : Pacer) :
    (p.refill now).bucket = p.bucket.refill burst ratePerMs now := by
  rw [TokenBucket.refill, bucket, refill, since_last]
  rfl

theorem le_waitMs (tokens : ℚ) : 1 ≤ tokens + waitMs tokens * ratePerMs := by
  have hwait : (1 - tokens) / refillPerSec * 1000 ≤ waitMs tokens :=
    (Int.le_ceil _).trans (le_max_right _ _)
  have hrate : (1 - tokens) / refillPerSec * 1000 * ratePerMs = 1 - tokens := by
    rw [ratePerMs, refillPerSec]
    ring
  have := mul_le_mul_of_nonneg_right hwait ratePerMs_pos.le
  linarith

variable {times : List ℚ} {now : ℚ} {p : Pacer}

theorem step_append (now : ℚ) (p : Pacer) : (p.step now).1 ++ (p.step now).2.queue = p.queue := by
  have h := startTasks_append p.queue (p.refill now).tokens
  rw [step]
  split
  · exact h
  · exact h

theorem Sound.step (accounts : TokenBucket.Accounts burst ratePerMs times p.bucket)
    (hnow : p.last ≤ now) :
    Sound (times ++ (p.step now).1.map fun _ => now) (p.step now).2 := by
  have hrefill : TokenBucket.Accounts burst ratePerMs times ⟨(p.refill now).tokens, now⟩ := by
    have := accounts.refill (by norm_num [burst]) ratePerMs_pos.le hnow
    rwa [← refill_bucket] at this
  have hstarted := accounts_startTasks p.queue hrefill
  rw [Pacer.step]
  split
  · rename_i hleft
    exact ⟨hstarted, ⟨nofun, fun h => absurd hleft h⟩, nofun⟩
  · rename_i hleft
    refine ⟨hstarted, ⟨fun _ => hleft, fun _ => rfl⟩, fun _ => ?_⟩
    change 1 ≤ (startTasks p.queue (p.refill now).tokens).2.1 + (now + _ - now) * ratePerMs
    rw [add_sub_cancel_left]
    exact le_waitMs _

theorem Sound.step_ne_nil (h : p.Sound times) (hdraining : p.draining) (hdue : p.due ≤ now) :
    (p.step now).1 ≠ [] := by
  have htoken : 1 ≤ (p.refill now).tokens := by
    have hsince := mul_le_mul_of_nonneg_right (sub_le_sub_right hdue p.last) ratePerMs_pos.le
    refine le_min (by norm_num [burst]) ?_
    rw [since_last]
    exact (h.due hdraining).trans (by linarith)
  have hstarted := startTasks_ne_nil (h.draining_iff.1 hdraining) htoken
  rw [Pacer.step]
  split
  · exact hstarted
  · exact hstarted

theorem drain_append (now : ℚ) (p : Pacer) :
    (p.drain now).1 ++ (p.drain now).2.queue = p.queue := by
  rw [drain]
  split
  · rfl
  · exact step_append now p

theorem Sound.drain (h : p.Sound times) (hnow : p.last ≤ now) (task : Task) :
    Sound (times ++ ({ p with queue := p.queue ++ [task] }.drain now).1.map fun _ => now)
      ({ p with queue := p.queue ++ [task] }.drain now).2 := by
  rw [Pacer.drain]
  split
  · rename_i hdraining
    refine ⟨by simpa [bucket] using h.accounts, ⟨fun _ => by simp, fun _ => hdraining⟩, fun _ => ?_⟩
    exact h.due hdraining
  · exact Sound.step (p := { p with queue := p.queue ++ [task] }) h.accounts hnow

theorem last_step (now : ℚ) (p : Pacer) : (p.step now).2.last = now := by
  rw [step]
  split
  · rfl
  · rfl

theorem last_drain (hnow : p.last ≤ now) : (p.drain now).2.last ≤ now := by
  rw [drain]
  split
  · exact hnow
  · exact (last_step now p).le

end Pacer

/-! ## Every session -/

namespace Pacing

variable {s s' : Pacing} {session session' : Session}

/-- What a session sent has started, or waits in its pacer. -/
structure Holds (s : Pacing) (session : Session) (p : Pacer) : Prop where
  tasks : s.startedIn (· = session) ++ p.queue = s.sentIn (· = session)
  pacer : p.Sound (s.timesIn (· = session))
  last_le : p.last ≤ s.now

/-- Every session's sends are accounted for; without sends its pacer is full. -/
structure Sound (s : Pacing) : Prop where
  holds : ∀ session, s.Holds session (s.pacerFor session)
  numbered : s.sends.map (·.2) = List.range s.sends.length

theorem pacerFor_ran (r : List Task × Pacer) : (s.ran session r).pacerFor session' =
    if session' = session then r.2 else s.pacerFor session' := by
  change (Function.update s.pacers session (some r.2) session').getD _ = _
  rw [Function.update_apply]
  split
  · rfl
  · rfl

theorem startedIn_ran (r : List Task × Pacer) : (s.ran session r).startedIn (· = session') =
    s.startedIn (· = session') ++ if session = session' then r.1 else [] := by
  rw [startedIn, ran, filter_append, map_append]
  split
  · rename_i h
    subst h
    simp [startedIn, filter_map, Function.comp_def]
  · rename_i h
    simp [startedIn, h]

theorem timesIn_ran (r : List Task × Pacer) : (s.ran session r).timesIn (· = session') =
    s.timesIn (· = session') ++ if session = session' then r.1.map fun _ => s.now else [] := by
  rw [timesIn, ran, filter_append, map_append]
  split
  · rename_i h
    subst h
    simp [timesIn, filter_map, Function.comp_def]
  · rename_i h
    simp [timesIn, h]

theorem holds_ran {queue : List Task} {r : List Task × Pacer}
    (htasks : s.startedIn (· = session) ++ queue = s.sentIn (· = session))
    (hqueue : r.1 ++ r.2.queue = queue)
    (hr : r.2.Sound (s.timesIn (· = session) ++ r.1.map fun _ => s.now))
    (hlast : r.2.last ≤ s.now) :
    (s.ran session r).Holds session r.2 where
  tasks := by
    rw [startedIn_ran, if_pos rfl, append_assoc, hqueue]
    exact htasks
  pacer := by
    rw [timesIn_ran, if_pos rfl]
    exact hr
  last_le := hlast

theorem Holds.ran_other {p : Pacer} (r : List Task × Pacer) (h : s.Holds session' p)
    (hne : session ≠ session') : (s.ran session r).Holds session' p where
  tasks := by
    rw [startedIn_ran, if_neg hne, append_nil]
    exact h.tasks
  pacer := by
    rw [timesIn_ran, if_neg hne, append_nil]
    exact h.pacer
  last_le := h.last_le

/-- The state once a session sent a task, before its pacer has it. -/
def send (s : Pacing) (session : Session) (task : Task) : Pacing :=
  { s with sends := s.sends ++ [(session, task)] }

theorem sentIn_send (task : Task) : (s.send session task).sentIn (· = session') =
    s.sentIn (· = session') ++ if session = session' then [task] else [] := by
  rw [sentIn, send, filter_append, map_append]
  split
  · rename_i h
    simp [h, sentIn]
  · rename_i h
    simp [h, sentIn]

theorem Holds.send_other {p : Pacer} (task : Task) (h : s.Holds session' p)
    (hne : session ≠ session') : (s.send session task).Holds session' p where
  tasks := by
    rw [sentIn_send, if_neg hne, append_nil]
    exact h.tasks
  pacer := h.pacer
  last_le := h.last_le

theorem Sound.paceSend (h : s.Sound) (serverId : String) : (s.paceSend serverId).Sound where
  holds session' := by
    change ((s.send _ _).ran _ _).Holds session' (((s.send _ _).ran _ _).pacerFor session')
    rw [pacerFor_ran]
    split
    · rename_i heq
      subst heq
      have hsession := h.holds (serverId, s.resets serverId)
      refine holds_ran ?_ (Pacer.drain_append _ _) (hsession.pacer.drain hsession.last_le _)
        (Pacer.last_drain hsession.last_le)
      rw [sentIn_send, if_pos rfl, ← hsession.tasks, append_assoc]
      rfl
    · rename_i hne
      exact ((h.holds session').send_other _ (Ne.symm hne)).ran_other _ (Ne.symm hne)
  numbered := by
    change (s.sends ++ [_]).map _ = List.range (s.sends ++ [_]).length
    rw [map_append, h.numbered, length_append, length_singleton, range_succ]
    rfl

theorem Sound.timer (h : s.Sound) {p : Pacer} (hp : s.pacers session = some p) :
    (s.ran session (p.step s.now)).Sound where
  holds session' := by
    have hsession := h.holds session
    rw [pacerFor, hp] at hsession
    rw [pacerFor_ran]
    split
    · rename_i heq
      subst heq
      exact holds_ran hsession.tasks (Pacer.step_append _ _)
        (.step hsession.pacer.accounts hsession.last_le) (Pacer.last_step _ _).le
    · rename_i hne
      exact (h.holds session').ran_other _ (Ne.symm hne)
  numbered := h.numbered

theorem Sound.wait (h : s.Sound) {ms : ℚ} (hms : 0 ≤ ms) : Sound { s with now := s.now + ms } where
  holds session := by
    have hsession := h.holds session
    have hlater : s.now ≤ s.now + ms := le_add_of_nonneg_right hms
    rw [pacerFor] at hsession ⊢
    cases hp : s.pacers session with
    | some p =>
      rw [hp] at hsession
      exact ⟨hsession.tasks, hsession.pacer, hsession.last_le.trans hlater⟩
    | none =>
      -- the pacer it would get is full, and stays full as time passes
      rw [hp] at hsession
      refine ⟨hsession.tasks, ⟨?_, hsession.pacer.draining_iff, nofun⟩, le_rfl⟩
      have hfilled := hsession.pacer.accounts.refill (by norm_num [burst]) ratePerMs_pos.le hlater
      have hfull : burst ≤ burst + (s.now + ms - s.now) * ratePerMs := by
        rw [add_sub_cancel_left]
        exact le_add_of_nonneg_right (mul_nonneg hms ratePerMs_pos.le)
      rw [TokenBucket.refill] at hfilled
      change TokenBucket.Accounts _ _ _ ⟨min burst (burst + (s.now + ms - s.now) * ratePerMs), _⟩
        at hfilled
      rwa [min_eq_left hfull] at hfilled
  numbered := h.numbered

theorem Sound.apply (h : s.Sound) {e : Event} (hs : s.apply e = some s') : s'.Sound := by
  cases e with
  | wait ms =>
    rw [Pacing.apply] at hs
    split at hs
    · rename_i hms
      cases hs
      exact h.wait hms
    · cases hs
  | paceSend serverId =>
    cases hs
    exact h.paceSend serverId
  | timer session =>
    rw [Pacing.apply] at hs
    split at hs
    · rename_i p hp
      split at hs
      · cases hs
        exact h.timer hp
      · cases hs
    · cases hs
  | resetSendPacing serverId =>
    cases hs
    refine ⟨fun session => ?_, h.numbered⟩
    have hsession := h.holds session
    exact ⟨hsession.tasks, hsession.pacer, hsession.last_le⟩

theorem sound_init : Sound {} where
  holds session := by
    have hfull : TokenBucket.Accounts burst ratePerMs [] ⟨burst, 0⟩ :=
      TokenBucket.accounts_full (by norm_num [burst]) ratePerMs_pos.le
    exact ⟨rfl, ⟨hfull, ⟨nofun, fun h => absurd rfl h⟩, nofun⟩, le_rfl⟩
  numbered := rfl

theorem sound_of_reachable (hs : system.Reachable s) : s.Sound :=
  System.reachable_invariant (fun _ h => h ▸ sound_init) (fun _ _ _ h hstep => h.apply hstep) hs

/-! ## Order and rate -/

theorem Sound.nodup_sends (h : s.Sound) : (s.sends.map (·.2)).Nodup := by
  rw [h.numbered]
  exact nodup_range

theorem Sound.startedIn_isPrefix (h : s.Sound) (session : Session) :
    s.startedIn (· = session) <+: s.sentIn (· = session) := ⟨_, (h.holds session).tasks⟩

theorem Sound.nodup_startedIn (h : s.Sound) (session : Session) :
    (s.startedIn (· = session)).Nodup := by
  have hsent : (s.sentIn (· = session)).Nodup := h.nodup_sends.sublist (filter_sublist.map _)
  exact hsent.sublist (h.startedIn_isPrefix session).sublist

theorem Sound.mem_sends (h : s.Sound) {e : Start} (he : e ∈ s.starts) :
    (e.session, e.task) ∈ s.sends := by
  have hstarted : e.task ∈ s.startedIn (· = e.session) :=
    mem_map.2 ⟨e, mem_filter.2 ⟨he, decide_eq_true rfl⟩, rfl⟩
  obtain ⟨⟨session, task⟩, hmem, rfl⟩ :=
    mem_map.1 ((h.startedIn_isPrefix e.session).sublist.mem hstarted)
  obtain ⟨hsend, hsession⟩ := mem_filter.1 hmem
  exact (of_decide_eq_true hsession : session = e.session) ▸ hsend

theorem Sound.nodup_starts (h : s.Sound) : (s.starts.map (·.task)).Nodup := by
  refine nodup_iff_count_le_one.2 fun task => ?_
  by_cases hstarted : ∃ e ∈ s.starts, e.task = task
  · obtain ⟨e, he, rfl⟩ := hstarted
    -- all starts of the task are of one session
    have hsession : ∀ e' ∈ s.starts, e'.task = e.task → e'.session = e.session := by
      intro e' he' htask
      exact congrArg Prod.fst
        (inj_on_of_nodup_map h.nodup_sends (h.mem_sends he') (h.mem_sends he) htask)
    calc (s.starts.map (·.task)).count e.task
        = (s.startedIn (· = e.session)).count e.task := by
          rw [startedIn, count_eq_countP, count_eq_countP, countP_map,
            countP_map, countP_filter]
          refine countP_congr fun e' he' => ?_
          simpa using hsession e' he'
      _ ≤ 1 := nodup_iff_count_le_one.1 (h.nodup_startedIn e.session) e.task
  · rw [count_eq_zero_of_not_mem fun hmem => hstarted (mem_map.1 hmem)]
    exact Nat.zero_le 1

theorem Sound.paced (h : s.Sound) (session : Session) : s.Paced (· = session) :=
  ⟨h.startedIn_isPrefix session, h.nodup_startedIn session, (h.holds session).pacer.accounts.within⟩

/-! ## Every send starts -/

/-- The timer of a session's pacer. -/
def isTimer (session : Session) : Event → Bool
  | .timer session' => session' = session
  | _ => false

/-- How many sends of a session wait ahead of a task. -/
def ahead (s : Pacing) (session : Session) (task : Task) : Nat :=
  (s.pacerFor session).queue.idxOf task

theorem Sound.queue_apply (h : s.Sound) {e : Event} (hs : s.apply e = some s') (session : Session) :
    ∃ started sent : List Task,
      s'.startedIn (· = session) = s.startedIn (· = session) ++ started ∧
      (s.pacerFor session).queue ++ sent = started ++ (s'.pacerFor session).queue ∧
      (isTimer session e → started ≠ []) := by
  cases e with
  | wait ms =>
    rw [Pacing.apply] at hs
    split at hs
    · cases hs
      refine ⟨[], [], (append_nil _).symm, ?_, nofun⟩
      rw [append_nil, pacerFor, pacerFor]
      cases hp : s.pacers session with
      | some p => rfl
      | none => rfl
    · cases hs
  | paceSend serverId =>
    cases hs
    by_cases heq : (serverId, s.resets serverId) = session
    · subst heq
      refine ⟨_, [s.sends.length],
        (startedIn_ran (s := s.send _ _) _).trans (by rw [if_pos rfl]; rfl), ?_, nofun⟩
      change _ = _ ++ (((s.send _ _).ran _ _).pacerFor _).queue
      rw [pacerFor_ran, if_pos rfl]
      exact (Pacer.drain_append s.now { s.pacerFor _ with queue := _ ++ [s.sends.length] }).symm
    · refine ⟨[], [],
        (startedIn_ran (s := s.send _ _) _).trans (by rw [if_neg heq]; rfl), ?_, nofun⟩
      change _ = (((s.send _ _).ran _ _).pacerFor _).queue
      rw [pacerFor_ran, if_neg (Ne.symm heq), append_nil]
      rfl
  | timer session' =>
    rw [Pacing.apply] at hs
    split at hs
    · rename_i p hp
      split at hs
      · rename_i hdue
        cases hs
        have hsession := h.holds session'
        by_cases heq : session' = session
        · subst heq
          rw [pacerFor, hp] at hsession
          refine ⟨_, [], (startedIn_ran _).trans (by rw [if_pos rfl]), ?_, fun _ => ?_⟩
          · rw [pacerFor_ran, if_pos rfl, append_nil, pacerFor, hp]
            exact (Pacer.step_append _ _).symm
          · exact hsession.pacer.step_ne_nil hdue.1 hdue.2
        · refine ⟨[], [], (startedIn_ran _).trans (by rw [if_neg heq]), ?_, fun htimer => ?_⟩
          · rw [pacerFor_ran, if_neg (Ne.symm heq), append_nil]
            rfl
          · exact absurd (of_decide_eq_true htimer) heq
      · cases hs
    · cases hs
  | resetSendPacing serverId =>
    cases hs
    exact ⟨[], [], (append_nil _).symm, append_nil _, nofun⟩

theorem starts_apply {e : Event} (hs : s.apply e = some s') : s.starts <+: s'.starts := by
  cases e with
  | wait ms =>
    rw [Pacing.apply] at hs
    split at hs
    · cases hs
      exact prefix_rfl
    · cases hs
  | paceSend serverId =>
    cases hs
    exact prefix_append _ _
  | timer session =>
    rw [Pacing.apply] at hs
    split at hs
    · split at hs
      · cases hs
        exact prefix_append _ _
      · cases hs
    · cases hs
  | resetSendPacing serverId =>
    cases hs
    exact prefix_rfl

/-- A send has started once its timer fired more often than sends are ahead. -/
theorem Sound.starts (h : s.Sound) {session : Session} {task : Task}
    (hsent : task ∈ s.sentIn (· = session)) {events : List Event} (hruns : system.Runs s events s')
    (henough : s.ahead session task < events.countP (isTimer session)) :
    task ∈ s'.startedIn (· = session) := by
  refine hruns.of_rank
    (fun s => s.Sound ∧ (task ∈ s.startedIn (· = session) ∨ task ∈ (s.pacerFor session).queue))
    (fun s => task ∈ s.startedIn (· = session)) (fun s => s.ahead session task) (isTimer session)
    ?_ ?_ ?_ ⟨h, ?_⟩ henough
  · rintro s e s' ⟨hs, htask⟩ hstep
    obtain ⟨started, sent, hstarted, hqueue, -⟩ := hs.queue_apply hstep session
    refine ⟨hs.apply hstep, ?_⟩
    rcases htask with htask | htask
    · exact .inl (hstarted ▸ mem_append_left _ htask)
    · have hmem : task ∈ started ++ (s'.pacerFor session).queue :=
        hqueue ▸ mem_append_left _ htask
      rcases mem_append.1 hmem with hmem | hmem
      · exact .inl (hstarted ▸ mem_append_right _ hmem)
      · exact .inr hmem
  · intro s e s' hstep htask
    exact (((starts_apply hstep).filter _).map _).mem htask
  · rintro s e s' ⟨hs, htask⟩ hstep hgoal
    obtain ⟨started, sent, hstarted, hqueue, htimer⟩ := hs.queue_apply hstep session
    rw [hstarted, mem_append, not_or] at hgoal
    have hwaits := htask.resolve_left hgoal.1
    -- the task is as far back as what started and what is ahead of it now
    have hahead : s.ahead session task = started.length + s'.ahead session task := by
      have hfront : List.idxOf task ((s.pacerFor session).queue ++ sent) = s.ahead session task :=
        idxOf_append_of_mem hwaits
      rw [← hfront, hqueue, idxOf_append_of_notMem hgoal.2, ahead]
    rw [hahead]
    split
    · rename_i hfired
      have := length_pos_of_ne_nil (htimer hfired)
      omega
    · omega
  · rw [← (h.holds session).tasks] at hsent
    exact mem_append.1 hsent

end Pacing

/-! ## Runs -/

open Pacing

/-- In every run no task starts twice, a session's sends start in order at its bucket's rate; where
    one waits the timer is set, and starts it once it fired more often than sends are ahead. -/
theorem session_paced {s : Pacing} (hs : system.Reachable s) :
    (s.starts.map (·.task)).Nodup ∧
      ∀ session, s.Paced (· = session) ∧
        ((s.pacerFor session).queue ≠ [] → (s.pacerFor session).draining) ∧
        ∀ task ∈ s.sentIn (· = session), ∀ events s', system.Runs s events s' →
          s.ahead session task < events.countP (isTimer session) →
          task ∈ s'.startedIn (· = session) := by
  have hsound := sound_of_reachable hs
  refine ⟨hsound.nodup_starts, fun session => ⟨hsound.paced session, ?_, ?_⟩⟩
  · exact (hsound.holds session).pacer.draining_iff.2
  · exact fun task hsent events s' hruns henough => hsound.starts hsent hruns henough

/-- The state after these events, which can all happen. -/
def after (events : List Event) (h : (events.foldlM Pacing.apply {}).isSome) : Pacing :=
  (events.foldlM Pacing.apply {}).get h

theorem reachable_after (events : List Event) (h : (events.foldlM Pacing.apply {}).isSome) :
    system.Reachable (after events h) :=
  .of_foldlM (fun _ _ _ hs => hs) (.init rfl) h

/-- More sends than the burst, at once. -/
def elevenSends : List Event := List.replicate 11 (.paceSend "a")

/-- The eleventh waits until its token is there. -/
def waiting : Pacing := after (elevenSends ++ [.wait 371]) (by decide +kernel)

theorem session_paced_waiting : (waiting.starts.map (·.task)).Nodup ∧
    waiting.Paced (· = ("a", 0)) ∧ waiting.sentIn (· = ("a", 0)) = List.range 11 ∧
    ∀ s', waiting.apply (.timer ("a", 0)) = some s' → 10 ∈ s'.startedIn (· = ("a", 0)) := by
  have hpaced := session_paced (reachable_after (elevenSends ++ [.wait 371]) (by decide +kernel))
  refine ⟨hpaced.1, (hpaced.2 _).1, by decide +kernel, fun s' hs => ?_⟩
  exact (hpaced.2 ("a", 0)).2.2 10 (by decide +kernel) [.timer ("a", 0)] s' (.cons hs (.nil s'))
    (by decide +kernel)

def resetWhileWaiting : Pacing :=
  after (elevenSends ++ [.resetSendPacing "a", .paceSend "a"]) (by decide +kernel)

/-- The new pacer lets the last send go before one that waits in the dropped pacer, and more than
    the burst at once. -/
theorem reset_breaks_pacing : system.Reachable resetWhileWaiting ∧
    ¬ resetWhileWaiting.startedIn (·.1 = "a") <+: resetWhileWaiting.sentIn (·.1 = "a") ∧
    ¬ TokenBucket.Within burst (refillPerSec / 1000) (resetWhileWaiting.timesIn (·.1 = "a")) := by
  refine ⟨reachable_after _ _, by decide +kernel, fun hwithin => ?_⟩
  have hstarts : TokenBucket.startsIn (resetWhileWaiting.timesIn (·.1 = "a")) 0 0 = 11 := by
    decide +kernel
  have hbound := hwithin 0 0 le_rfl
  rw [hstarts] at hbound
  norm_num [burst] at hbound

end Decibell.SendPacing
