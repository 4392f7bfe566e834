import Decibell.Lib.Run
import Mathlib.Data.List.Nodup

/-!
# Attempts at a call

A call is prepared, connected and ended by three commands of the native client, which share two
slots of its state: the prepared call and the active one.
-/

namespace Decibell.CallAttempts

open Lib List

/-! ## The slots -/

/-- A prepared call, with the number of its request. -/
structure PendingCall where
  callId : String
  peerUid : Int
  request : Nat
deriving DecidableEq

/-- A call connected or on its way, by the number of its attempt. -/
structure ActiveCall where
  callId : String
  peerUid : Int
  attempt : Nat
deriving DecidableEq

inductive Engine where
  | channel
  | call (attempt : Nat)
deriving DecidableEq

/-- What the commands share. -/
structure AppState where
  uid : Int
  pendingCall : Option PendingCall := none
  activeCall : Option ActiveCall := none
  voiceEngine : Option Engine := none
  connectedVoiceChannel : Bool := false
deriving DecidableEq

namespace AppState

variable (s : AppState)

/-- `call_prepare`, before it waits. -/
def prepareBegin (peerUid : Int) : AppState × Except String Unit :=
  if s.activeCall.isSome then (s, .error "Already in a call")
  else if s.voiceEngine.isSome then (s, .error "Leave the voice channel first")
  else
    let s := { s with pendingCall := none }
    if s.uid ≤ 0 then (s, .error "Not authenticated")
    else if peerUid ≤ 0 ∨ peerUid = s.uid then (s, .error "Cannot call yourself")
    else (s, .ok ())

/-- `call_prepare`, when it has sockets and candidates. -/
def prepareFinish (p : PendingCall) : AppState × Except String Unit :=
  if s.activeCall.isSome then (s, .error "Already in a call")
  else ({ s with pendingCall := some p }, .ok ())

/-- `call_connect`, when the peer's identity does not verify. -/
def connectRejected : AppState := { s with pendingCall := none }

/-- `call_connect`, when it does: takes the prepared call. -/
def connectTake (callId : String) (peerUid : Int) (attempt : Nat) :
    AppState × Except String PendingCall :=
  if s.activeCall.isSome then (s, .error "Already in a call")
  else if s.voiceEngine.isSome then (s, .error "Leave the voice channel first")
  else
    match s.pendingCall with
    | none => (s, .error "Call not prepared")
    | some pending =>
      let s := { s with pendingCall := none }
      if pending.callId ≠ callId ∨ pending.peerUid ≠ peerUid then
        (s, .error "Prepared call does not match")
      else if s.uid ≤ 0 then (s, .error "Not authenticated")
      else ({ s with activeCall := some { callId, peerUid, attempt } }, .ok pending)

/-- `call_connect`, when the keys cannot be derived. -/
def deriveFailed : AppState := { s with activeCall := none }

/-- The active call is the one with this id. -/
def stillOurs (callId : String) : Bool := s.activeCall.any (·.callId = callId)

/-- No hole was punched, or the engine did not start. -/
def punchFailed (callId : String) : AppState :=
  if s.stillOurs callId then { s with activeCall := none } else s

/-- The engine is installed and the call reported, or the engine torn down. -/
def punched (callId : String) (attempt : Nat) (stopped : Bool) : AppState × Bool :=
  if stopped || !s.stillOurs callId || s.voiceEngine.isSome then (s, false)
  else ({ s with voiceEngine := some (.call attempt) }, true)

/-- `call_end`: also the attempt whose flag is set. -/
def callEnd : AppState × Option Nat :=
  let hadCall := s.activeCall.isSome
  ({ s with
      pendingCall := none
      activeCall := none
      voiceEngine :=
        if hadCall && !s.connectedVoiceChannel then none else s.voiceEngine },
    s.activeCall.map (·.attempt))

end AppState

/-! ## Commands on their way -/

/-- Where a `call_connect` is; behind the verification it has its request. -/
inductive Stage where
  | verifying
  | deriving (request : Nat)
  | punching (request : Nat)
deriving DecidableEq

def Stage.request? : Stage → Option Nat
  | .verifying => none
  | .deriving request => some request
  | .punching request => some request

structure Connect where
  callId : String
  peerUid : Int
  attempt : Nat
  stage : Stage
deriving DecidableEq

inductive Outcome where
  | failed
  | done
deriving DecidableEq

/-- A step of one of the commands. -/
inductive Action where
  | prepare (callId : String) (peerUid : Int)
  | gatherFailed (p : PendingCall)
  | gathered (p : PendingCall)
  | connect (callId : String) (peerUid : Int)
  | rejected (c : Connect)
  | verified (c : Connect)
  | deriveFailed (c : Connect)
  | derived (c : Connect)
  | punched (c : Connect) (outcome : Outcome)
  | callEnd
  /-- The account and the voice channels change. -/
  | others (uid : Int) (voiceEngine : Option Engine) (connectedVoiceChannel : Bool)

/-- The state, the commands on their way, and what happened. -/
structure Run where
  app : AppState
  prepares : List PendingCall := []
  connects : List Connect := []
  /-- The attempts whose flag is set. -/
  stopped : List Nat := []
  /-- How many requests there were, and how many up to the last `call_end`. -/
  requests : Nat := 0
  ended : Nat := 0
  attempts : Nat := 0
  /-- The requests reported as connected, with how many were ended then. -/
  reports : List (Nat × Nat) := []

namespace Run

variable (s : Run)

def prepare (callId : String) (peerUid : Int) : Run :=
  match s.app.prepareBegin peerUid with
  | (app, .error _) => { s with app }
  | (app, .ok _) =>
    { s with
      app
      prepares := { callId, peerUid, request := s.requests } :: s.prepares
      requests := s.requests + 1 }

def connect (callId : String) (peerUid : Int) : Run :=
  if peerUid ≤ 0 then s
  else
    { s with
      connects := { callId, peerUid, attempt := s.attempts, stage := .verifying } :: s.connects
      attempts := s.attempts + 1 }

def verified (c : Connect) : Run :=
  match s.app.connectTake c.callId c.peerUid c.attempt with
  | (app, .error _) => { s with app, connects := s.connects.erase c }
  | (app, .ok pending) =>
    { s with
      app
      connects := { c with stage := .deriving pending.request } :: s.connects.erase c }

def punched (c : Connect) (request : Nat) : Run :=
  match s.app.punched c.callId c.attempt (s.stopped.contains c.attempt) with
  | (app, false) => { s with app, connects := s.connects.erase c }
  | (app, true) =>
    { s with
      app
      connects := s.connects.erase c
      reports := (request, s.ended) :: s.reports }

def callEnd : Run :=
  let out := s.app.callEnd
  { s with app := out.1, stopped := out.2.toList ++ s.stopped, ended := s.requests }

/-- A command that is elsewhere takes no step. -/
def step : Action → Run
  | .prepare callId peerUid => s.prepare callId peerUid
  | .gatherFailed p => { s with prepares := s.prepares.erase p }
  | .gathered p =>
    if p ∈ s.prepares then
      { s with app := (s.app.prepareFinish p).1, prepares := s.prepares.erase p }
    else s
  | .connect callId peerUid => s.connect callId peerUid
  | .rejected c =>
    if c ∈ s.connects ∧ c.stage = .verifying then
      { s with app := s.app.connectRejected, connects := s.connects.erase c }
    else s
  | .verified c => if c ∈ s.connects ∧ c.stage = .verifying then s.verified c else s
  | .deriveFailed c =>
    match c.stage with
    | .deriving _ =>
      if c ∈ s.connects then
        { s with app := s.app.deriveFailed, connects := s.connects.erase c }
      else s
    | _ => s
  | .derived c =>
    match c.stage with
    | .deriving request =>
      if c ∈ s.connects then
        { s with connects := { c with stage := .punching request } :: s.connects.erase c }
      else s
    | _ => s
  | .punched c outcome =>
    match c.stage with
    | .punching request =>
      if c ∈ s.connects then
        match outcome with
        | .failed =>
          { s with app := s.app.punchFailed c.callId, connects := s.connects.erase c }
        | .done => s.punched c request
      else s
    | _ => s
  | .callEnd => s.callEnd
  | .others uid voiceEngine connectedVoiceChannel =>
    { s with app := { s.app with uid, voiceEngine, connectedVoiceChannel } }

end Run

/-- Any steps, from a state without calls. -/
def callSystem : System Run Action where
  init s := ∃ uid voiceEngine connectedVoiceChannel,
    s = { app := { uid, voiceEngine, connectedVoiceChannel } }
  step s a s' := s' = s.step a

/-! ## What an attempt may do -/

/-- The call that a step of a prepare or a connect is of. -/
def Action.callId? : Action → Option String
  | .prepare callId _ => some callId
  | .gatherFailed p => some p.callId
  | .gathered p => some p.callId
  | .connect callId _ => some callId
  | .rejected c => some c.callId
  | .verified c => some c.callId
  | .deriveFailed c => some c.callId
  | .derived c => some c.callId
  | .punched c _ => some c.callId
  | .callEnd => none
  | .others .. => none

/-- The attempt to connect that a step is of. -/
def Action.attempt? : Action → Option Nat
  | .rejected c => some c.attempt
  | .verified c => some c.attempt
  | .deriveFailed c => some c.attempt
  | .derived c => some c.attempt
  | .punched c _ => some c.attempt
  | _ => none

/-- A newer prepare takes the place of an older one. -/
def Action.Supersedes : Action → PendingCall → Prop
  | .prepare .., _ => True
  | .gathered q, p => p.request < q.request
  | _, _ => False

/-- A step of a prepare or connect leaves another call's prepared slot, another attempt's active
    one, and an engine. -/
structure Untouched (s : Run) (a : Action) (s' : Run) : Prop where
  pending : ∀ p, s.app.pendingCall = some p → a.callId? ≠ some p.callId → ¬a.Supersedes p →
    s'.app.pendingCall = some p
  active : ∀ c, s.app.activeCall = some c → a.attempt? ≠ some c.attempt →
    s'.app.activeCall = some c
  engine : ∀ e, s.app.voiceEngine = some e → s'.app.voiceEngine = some e

/-- Attempts leave each other alone: here, and in a next step that meets a condition. -/
structure Apart (C : Run → Action → Prop) (s : Run) : Prop where
  /-- The prepared call was requested last, with no `call_end` after. -/
  latest : ∀ p, s.app.pendingCall = some p → p.request + 1 = s.requests ∧ s.ended ≤ p.request
  /-- What was reported as connected had not been ended. -/
  reports : ∀ r ∈ s.reports, r.2 ≤ r.1
  untouched : ∀ a, C s a → a.callId?.isSome → Untouched s a (s.step a)

/-- What a step has to find:

    * a prepare that fills its slot was requested last, with no `call_end` since;
    * a connect that is refused, or takes the prepared call, finds its own or none;
    * if no keys can be derived, the active call is its own;
    * if no hole was punched, an active call of its id is its own. -/
def Careful (s : Run) : Action → Prop
  | .gathered p => s.app.activeCall = none → p.request + 1 = s.requests ∧ s.ended ≤ p.request
  | .rejected c => ∀ p, s.app.pendingCall = some p → p.callId = c.callId
  | .verified c => s.app.activeCall = none → s.app.voiceEngine = none →
      ∀ p, s.app.pendingCall = some p → p.callId = c.callId
  | .deriveFailed c => ∀ a, s.app.activeCall = some a → a.attempt = c.attempt
  | .punched c .failed => ∀ a, s.app.activeCall = some a → a.callId = c.callId →
      a.attempt = c.attempt
  | _ => True

/-! ## What the commands keep -/

/-- What holds where every step is careful. -/
structure Kept (s : Run) : Prop where
  latest : ∀ p, s.app.pendingCall = some p → p.request + 1 = s.requests ∧ s.ended ≤ p.request
  reports : ∀ r ∈ s.reports, r.2 ≤ r.1
  /-- Requests on their way are neither the prepared one nor each other. -/
  requested : ((s.app.pendingCall.toList ++ s.prepares).map (·.request)).Nodup
  request_lt : ∀ p ∈ s.prepares, p.request < s.requests
  attempts : (s.connects.map (·.attempt)).Nodup
  attempt_lt : ∀ c ∈ s.connects, c.attempt < s.attempts
  /-- An attempt with its prepared call is active, or was stopped. -/
  active : ∀ c ∈ s.connects, ∀ r, c.stage.request? = some r → c.attempt ∉ s.stopped →
    s.ended ≤ r ∧ ∃ a, s.app.activeCall = some a ∧ a.attempt = c.attempt

section Slots

variable {s : AppState}

theorem prepareBegin_cases (s : AppState) (peerUid : Int) :
    (∃ e, s.prepareBegin peerUid = (s, .error e)) ∨
      ∃ r, s.prepareBegin peerUid = ({ s with pendingCall := none }, r) := by
  rw [AppState.prepareBegin]
  split
  · exact .inl ⟨_, rfl⟩
  · split
    · exact .inl ⟨_, rfl⟩
    · dsimp only
      split
      · exact .inr ⟨_, rfl⟩
      · split <;> exact .inr ⟨_, rfl⟩

theorem connectTake_cases (s : AppState) (callId : String) (peerUid : Int) (attempt : Nat) :
    (∃ e, s.connectTake callId peerUid attempt = (s, .error e)) ∨
      s.activeCall = none ∧ s.voiceEngine = none ∧ ∃ p, s.pendingCall = some p ∧
        ((∃ e, s.connectTake callId peerUid attempt = ({ s with pendingCall := none }, .error e)) ∨
          s.connectTake callId peerUid attempt =
            ({ s with
                pendingCall := none
                activeCall := some { callId, peerUid, attempt } }, .ok p)) := by
  rw [AppState.connectTake]
  split
  · exact .inl ⟨_, rfl⟩
  · next hactive =>
    split
    · exact .inl ⟨_, rfl⟩
    · next hengine =>
      rw [Option.not_isSome_iff_eq_none] at hactive hengine
      cases hpending : s.pendingCall with
      | none => exact .inl ⟨_, rfl⟩
      | some p =>
        refine .inr ⟨hactive, hengine, p, rfl, ?_⟩
        dsimp only
        split
        · exact .inl ⟨_, rfl⟩
        · split
          · exact .inl ⟨_, rfl⟩
          · exact .inr rfl

theorem punchFailed_cases (s : AppState) (callId : String) : s.punchFailed callId = s ∨
    (∃ a, s.activeCall = some a ∧ a.callId = callId) ∧
      s.punchFailed callId = { s with activeCall := none } := by
  rw [AppState.punchFailed]
  split
  · next hours =>
    rw [AppState.stillOurs, Option.any_eq_true] at hours
    obtain ⟨a, ha, hid⟩ := hours
    exact .inr ⟨⟨a, ha, of_decide_eq_true hid⟩, rfl⟩
  · exact .inl rfl

theorem punched_cases (s : AppState) (callId : String) (attempt : Nat) (stopped : Bool) :
    s.punched callId attempt stopped = (s, false) ∨
      stopped = false ∧ s.voiceEngine = none ∧ s.punched callId attempt stopped =
        ({ s with voiceEngine := some (.call attempt) }, true) := by
  rw [AppState.punched]
  split
  · exact .inl rfl
  · next h =>
    simp only [Bool.or_eq_true, not_or, Bool.not_eq_true, Option.isSome_eq_false_iff,
      Option.isNone_iff_eq_none] at h
    exact .inr ⟨h.1.1, h.2, rfl⟩

end Slots

section Steps

variable {s : Run} {c : Connect}

theorem Kept.of_mem_erase (h : Kept s) (hc : c ∈ s.connects) {c' : Connect}
    (hc' : c' ∈ s.connects.erase c) : c' ∈ s.connects ∧ c'.attempt ≠ c.attempt := by
  have hmem := mem_of_mem_erase hc'
  refine ⟨hmem, fun heq => ?_⟩
  obtain rfl := inj_on_of_nodup_map h.attempts hmem hc heq
  exact (h.attempts.of_map _).not_mem_erase hc'

/-- What is kept of the prepared call and the prepares on their way. -/
structure Prepared (s : Run) : Prop where
  latest : ∀ p, s.app.pendingCall = some p → p.request + 1 = s.requests ∧ s.ended ≤ p.request
  requested : ((s.app.pendingCall.toList ++ s.prepares).map (·.request)).Nodup
  request_lt : ∀ p ∈ s.prepares, p.request < s.requests

/-- What is kept of the attempts to connect. -/
structure Connecting (s : Run) : Prop where
  attempts : (s.connects.map (·.attempt)).Nodup
  attempt_lt : ∀ c ∈ s.connects, c.attempt < s.attempts
  active : ∀ c ∈ s.connects, ∀ r, c.stage.request? = some r → c.attempt ∉ s.stopped →
    s.ended ≤ r ∧ ∃ a, s.app.activeCall = some a ∧ a.attempt = c.attempt

theorem Kept.prepared (h : Kept s) : Prepared s := ⟨h.latest, h.requested, h.request_lt⟩

theorem Kept.connecting (h : Kept s) : Connecting s := ⟨h.attempts, h.attempt_lt, h.active⟩

theorem Prepared.kept (h : Prepared s) (hreports : ∀ r ∈ s.reports, r.2 ≤ r.1)
    (hc : Connecting s) : Kept s :=
  ⟨h.latest, hreports, h.requested, h.request_lt, hc.attempts, hc.attempt_lt, hc.active⟩

theorem Prepared.step {s' : Run} (h : Prepared s)
    (hpending : s'.app.pendingCall = s.app.pendingCall ∨ s'.app.pendingCall = none)
    (hprepares : s'.prepares = s.prepares) (hrequests : s'.requests = s.requests)
    (hended : s'.ended = s.ended) : Prepared s' where
  latest p hp := by
    rcases hpending with hsame | hnone
    · rw [hrequests, hended]
      exact h.latest p (hsame.symm.trans hp)
    · rw [hnone] at hp
      cases hp
  requested := by
    rw [hprepares]
    rcases hpending with hsame | hnone
    · rw [hsame]
      exact h.requested
    · rw [hnone]
      have hnodup := h.requested
      rw [map_append] at hnodup
      exact (nodup_append.1 hnodup).2.1
  request_lt p hp := by
    rw [hrequests]
    exact h.request_lt p (hprepares ▸ hp)

theorem Connecting.step {s' : Run} (h : Connecting s) (hconnects : s'.connects = s.connects)
    (hstopped : s'.stopped = s.stopped) (hattempts : s'.attempts = s.attempts)
    (hended : s'.ended = s.ended) (hactive : s'.app.activeCall = s.app.activeCall) :
    Connecting s' where
  attempts := by rw [hconnects]; exact h.attempts
  attempt_lt c hc := by
    rw [hattempts]
    exact h.attempt_lt c (hconnects ▸ hc)
  active c hc r hr hrun := by
    rw [hended, hactive]
    exact h.active c (hconnects ▸ hc) r hr (hstopped ▸ hrun)

theorem Kept.connecting_erase {s' : Run} (h : Kept s) (hc : c ∈ s.connects)
    (hconnects : s'.connects = s.connects.erase c) (hstopped : s'.stopped = s.stopped)
    (hattempts : s'.attempts = s.attempts) (hended : s'.ended = s.ended)
    (hactive : s'.app.activeCall = s.app.activeCall ∨
      ∀ a, s.app.activeCall = some a → a.attempt = c.attempt) : Connecting s' where
  attempts := by
    rw [hconnects]
    exact h.attempts.sublist (erase_sublist.map _)
  attempt_lt c' hc' := by
    rw [hattempts]
    exact h.attempt_lt c' (mem_of_mem_erase (hconnects ▸ hc'))
  active c' hc' r hr hrun := by
    rw [hconnects] at hc'
    rw [hstopped] at hrun
    obtain ⟨hmem, hne⟩ := h.of_mem_erase hc hc'
    obtain ⟨hlater, a, ha, hattempt⟩ := h.active c' hmem r hr hrun
    rcases hactive with hsame | hown
    · rw [hended, hsame]
      exact ⟨hlater, a, ha, hattempt⟩
    · -- What was active is the attempt's that is over.
      exact absurd (hattempt.symm.trans (hown a ha)) hne

theorem kept_prepare (h : Kept s) (callId : String) (peerUid : Int) :
    Kept (s.prepare callId peerUid) := by
  rw [Run.prepare]
  rcases prepareBegin_cases s.app peerUid with ⟨e, hrefused⟩ | ⟨r, hcleared⟩
  · rw [hrefused]
    exact h
  · rw [hcleared]
    cases r with
    | error e =>
      exact Prepared.kept (h.prepared.step (.inr rfl) rfl rfl rfl) h.reports
        (h.connecting.step rfl rfl rfl rfl rfl)
    | ok =>
      have hprepared : Prepared { s with app := { s.app with pendingCall := none } } :=
        h.prepared.step (.inr rfl) rfl rfl rfl
      refine Prepared.kept ⟨nofun, ?_, ?_⟩ h.reports (h.connecting.step rfl rfl rfl rfl rfl)
      · -- The new request has a number of its own.
        refine nodup_cons.2 ⟨fun hmem => ?_, hprepared.requested⟩
        obtain ⟨p, hp, heq⟩ := mem_map.1 hmem
        exact Nat.ne_of_lt (h.request_lt p hp) heq
      · exact forall_mem_cons.2 ⟨Nat.lt_succ_self _, fun p hp =>
          Nat.lt_succ_of_lt (h.request_lt p hp)⟩

theorem kept_gathered (h : Kept s) {p : PendingCall} (hp : p ∈ s.prepares)
    (hcareful : Careful s (.gathered p)) :
    Kept { s with app := (s.app.prepareFinish p).1, prepares := s.prepares.erase p } := by
  have hreq := h.requested
  rw [map_append, nodup_append] at hreq
  obtain ⟨-, hnodup, hapart⟩ := hreq
  have hlt : ∀ q ∈ s.prepares.erase p, q.request < s.requests := fun q hq =>
    h.request_lt q (mem_of_mem_erase hq)
  rw [AppState.prepareFinish]
  split
  · -- A call is active: the prepare is refused.
    refine Prepared.kept ⟨h.latest, ?_, hlt⟩ h.reports (h.connecting.step rfl rfl rfl rfl rfl)
    exact h.requested.sublist ((List.Sublist.append_left erase_sublist _).map _)
  · next hactive =>
    rw [Option.not_isSome_iff_eq_none] at hactive
    have hlatest := hcareful hactive
    refine Prepared.kept ⟨?_, ?_, hlt⟩ h.reports (h.connecting.step rfl rfl rfl rfl rfl)
    · rintro q hq
      obtain rfl := Option.some.inj hq
      exact hlatest
    · refine nodup_cons.2 ⟨fun hmem => ?_, hnodup.sublist (erase_sublist.map _)⟩
      obtain ⟨q, hq, heq⟩ := mem_map.1 hmem
      obtain rfl := inj_on_of_nodup_map hnodup (mem_of_mem_erase hq) hp heq
      exact (hnodup.of_map _).not_mem_erase hq

theorem kept_verified (h : Kept s) (hc : c ∈ s.connects) :
    Kept (s.verified c) := by
  rw [Run.verified]
  rcases connectTake_cases s.app c.callId c.peerUid c.attempt with
    ⟨e, herror⟩ | ⟨hactive, -, p, hpending, ⟨e, herror⟩ | htaken⟩
  · rw [herror]
    exact Prepared.kept (h.prepared.step (.inl rfl) rfl rfl rfl) h.reports
      (h.connecting_erase hc rfl rfl rfl rfl (.inl rfl))
  · rw [herror]
    exact Prepared.kept (h.prepared.step (.inr rfl) rfl rfl rfl) h.reports
      (h.connecting_erase hc rfl rfl rfl rfl (.inl rfl))
  · rw [htaken]
    have hothers := @Kept.connecting_erase s c { s with connects := s.connects.erase c } h hc rfl
      rfl rfl rfl (.inl rfl)
    refine Prepared.kept (h.prepared.step (.inr rfl) rfl rfl rfl) h.reports ⟨?_, ?_, ?_⟩
    · refine nodup_cons.2 ⟨fun hmem => ?_, hothers.attempts⟩
      obtain ⟨c', hc', heq⟩ := mem_map.1 hmem
      exact (h.of_mem_erase hc hc').2 heq
    · exact forall_mem_cons.2 ⟨h.attempt_lt c hc, hothers.attempt_lt⟩
    · -- Nothing was active, so no other attempt has taken its call.
      refine forall_mem_cons.2 ⟨fun r hr _ => ?_, fun c' hc' r hr hrun => ?_⟩
      · obtain rfl := Option.some.inj hr
        exact ⟨(h.latest p hpending).2, _, rfl, rfl⟩
      · obtain ⟨-, a, ha, -⟩ := hothers.active c' hc' r hr hrun
        rw [hactive] at ha
        cases ha

theorem kept_derived (h : Kept s) (hc : c ∈ s.connects) {request : Nat}
    (hstage : c.stage = .deriving request) :
    Kept { s with
      connects := { c with stage := .punching request } :: s.connects.erase c } := by
  have hothers := @Kept.connecting_erase s c { s with connects := s.connects.erase c } h hc rfl
    rfl rfl rfl (.inl rfl)
  refine Prepared.kept (h.prepared.step (.inl rfl) rfl rfl rfl) h.reports ⟨?_, ?_, ?_⟩
  · refine nodup_cons.2 ⟨fun hmem => ?_, hothers.attempts⟩
    obtain ⟨c', hc', heq⟩ := mem_map.1 hmem
    exact (h.of_mem_erase hc hc').2 heq
  · exact forall_mem_cons.2 ⟨h.attempt_lt c hc, hothers.attempt_lt⟩
  · refine forall_mem_cons.2 ⟨fun r hr hrun => ?_, hothers.active⟩
    exact h.active c hc r (by rw [hstage]; exact hr) hrun

theorem kept_punched (h : Kept s) (hc : c ∈ s.connects) {request : Nat}
    (hstage : c.stage = .punching request) : Kept (s.punched c request) := by
  rw [Run.punched]
  rcases punched_cases s.app c.callId c.attempt (s.stopped.contains c.attempt) with
    hdown | ⟨hrun, -, hinstalled⟩
  · rw [hdown]
    exact Prepared.kept (h.prepared.step (.inl rfl) rfl rfl rfl) h.reports
      (h.connecting_erase hc rfl rfl rfl rfl (.inl rfl))
  · rw [hinstalled]
    have hrun : c.attempt ∉ s.stopped := fun hmem =>
      absurd (contains_iff_mem.2 hmem) (by rw [hrun]; exact Bool.false_ne_true)
    have hlater := (h.active c hc request (by rw [hstage]; rfl) hrun).1
    exact Prepared.kept (h.prepared.step (.inl rfl) rfl rfl rfl)
      (forall_mem_cons.2 ⟨hlater, h.reports⟩)
      (h.connecting_erase hc rfl rfl rfl rfl (.inl rfl))

theorem kept_callEnd (h : Kept s) : Kept s.callEnd := by
  refine Prepared.kept ⟨nofun, ?_, h.request_lt⟩ h.reports ⟨h.attempts, h.attempt_lt, ?_⟩
  · have hnodup := h.requested
    rw [map_append] at hnodup
    exact (nodup_append.1 hnodup).2.1
  · -- Who had not been stopped was active, and is stopped now.
    intro c hc r hr hrun
    obtain ⟨hout, hbefore⟩ := not_or.1 (mem_append.not.1 hrun)
    obtain ⟨-, a, ha, hattempt⟩ := h.active c hc r hr hbefore
    refine absurd ?_ hout
    rw [AppState.callEnd]
    dsimp only
    rw [ha, ← hattempt]
    exact mem_singleton_self _

theorem kept_step (h : Kept s) {a : Action} (hcareful : Careful s a) : Kept (s.step a) := by
  cases a with
  | prepare callId peerUid => exact kept_prepare h callId peerUid
  | gatherFailed p =>
    refine Prepared.kept ⟨h.latest, ?_, fun q hq => h.request_lt q (mem_of_mem_erase hq)⟩
      h.reports (h.connecting.step rfl rfl rfl rfl rfl)
    exact h.requested.sublist ((List.Sublist.append_left erase_sublist _).map _)
  | gathered p =>
    rw [Run.step]
    split
    · next hp => exact kept_gathered h hp hcareful
    · exact h
  | connect callId peerUid =>
    rw [Run.step, Run.connect]
    split
    · exact h
    · refine Prepared.kept (h.prepared.step (.inl rfl) rfl rfl rfl) h.reports ⟨?_, ?_, ?_⟩
      · refine nodup_cons.2 ⟨fun hmem => ?_, h.attempts⟩
        obtain ⟨c, hc, heq⟩ := mem_map.1 hmem
        exact Nat.ne_of_lt (h.attempt_lt c hc) heq
      · exact forall_mem_cons.2 ⟨Nat.lt_succ_self _, fun c hc =>
          Nat.lt_succ_of_lt (h.attempt_lt c hc)⟩
      · exact forall_mem_cons.2 ⟨nofun, h.active⟩
  | rejected c =>
    rw [Run.step]
    split
    · next hc =>
      exact Prepared.kept (h.prepared.step (.inr rfl) rfl rfl rfl) h.reports
        (h.connecting_erase hc.1 rfl rfl rfl rfl (.inl rfl))
    · exact h
  | verified c =>
    rw [Run.step]
    split
    · next hc => exact kept_verified h hc.1
    · exact h
  | deriveFailed c =>
    rw [Run.step]
    split
    · split
      · next hc =>
        exact Prepared.kept (h.prepared.step (.inl rfl) rfl rfl rfl) h.reports
          (h.connecting_erase hc rfl rfl rfl rfl (.inr hcareful))
      · exact h
    · exact h
  | derived c =>
    rw [Run.step]
    split
    · next hstage =>
      split
      · next hc => exact kept_derived h hc hstage
      · exact h
    · exact h
  | punched c outcome =>
    rw [Run.step]
    split
    · next hstage =>
      split
      · next hc =>
        cases outcome with
        | done => exact kept_punched h hc hstage
        | failed =>
          dsimp only
          rcases punchFailed_cases s.app c.callId with hsame | ⟨⟨a, ha, hid⟩, hcleared⟩
          · rw [hsame]
            exact Prepared.kept (h.prepared.step (.inl rfl) rfl rfl rfl) h.reports
              (h.connecting_erase hc rfl rfl rfl rfl (.inl rfl))
          · rw [hcleared]
            refine Prepared.kept (h.prepared.step (.inl rfl) rfl rfl rfl) h.reports
              (h.connecting_erase hc rfl rfl rfl rfl (.inr fun a' ha' => ?_))
            obtain rfl := Option.some.inj (ha.symm.trans ha')
            exact hcareful a ha hid
      · exact h
    · exact h
  | callEnd => exact kept_callEnd h
  | others uid voiceEngine connectedVoiceChannel =>
    exact Prepared.kept (h.prepared.step (.inl rfl) rfl rfl rfl) h.reports
      (h.connecting.step rfl rfl rfl rfl rfl)

end Steps

section Apart

variable {s : Run} {a : Action}

theorem untouched_of_same {s' : Run} (hpending : s'.app.pendingCall = s.app.pendingCall)
    (hactive : s'.app.activeCall = s.app.activeCall)
    (hengine : s'.app.voiceEngine = s.app.voiceEngine) : Untouched s a s' where
  pending _ hp _ _ := hpending.trans hp
  active _ hc _ := hactive.trans hc
  engine _ he := hengine.trans he

theorem untouched_of_cleared {s' : Run}
    (hown : ∀ p, s.app.pendingCall = some p → a.callId? = some p.callId ∨ a.Supersedes p)
    (hactive : s'.app.activeCall = s.app.activeCall ∨ s.app.activeCall = none)
    (hengine : s'.app.voiceEngine = s.app.voiceEngine) : Untouched s a s' where
  pending p hp hother hnew := ((hown p hp).elim hother hnew).elim
  active c hc _ := by
    rcases hactive with hsame | hnone
    · exact hsame.trans hc
    · rw [hnone] at hc
      cases hc
  engine _ he := hengine.trans he

theorem untouched_of_over {s' : Run}
    (hown : ∀ c, s.app.activeCall = some c → a.attempt? = some c.attempt)
    (hpending : s'.app.pendingCall = s.app.pendingCall)
    (hengine : s'.app.voiceEngine = s.app.voiceEngine) : Untouched s a s' where
  pending _ hp _ _ := hpending.trans hp
  active c hc hother := absurd (hown c hc) hother
  engine _ he := hengine.trans he

theorem Kept.request_ne (h : Kept s) {p q : PendingCall} (hp : s.app.pendingCall = some p)
    (hq : q ∈ s.prepares) : p.request ≠ q.request := by
  have hnodup := h.requested
  rw [hp] at hnodup
  intro heq
  have hmem : q.request ∈ s.prepares.map (·.request) := mem_map_of_mem hq
  rw [← heq] at hmem
  exact (nodup_cons.1 hnodup).1 hmem

theorem untouched_verified {c : Connect} (hcareful : Careful s (.verified c)) :
    Untouched s (.verified c) (s.verified c) := by
  rw [Run.verified]
  rcases connectTake_cases s.app c.callId c.peerUid c.attempt with
    ⟨e, herror⟩ | ⟨hactive, hengine, p, hpending, htaken⟩
  · rw [herror]
    exact untouched_of_same rfl rfl rfl
  · have hown : ∀ p, s.app.pendingCall = some p →
        (Action.verified c).callId? = some p.callId ∨ (Action.verified c).Supersedes p :=
      fun p hp => .inl (congrArg some (hcareful hactive hengine p hp).symm)
    rcases htaken with ⟨e, herror⟩ | htaken
    · rw [herror]
      exact untouched_of_cleared hown (.inl rfl) rfl
    · rw [htaken]
      exact untouched_of_cleared hown (.inr hactive) rfl

theorem untouched_punched {c : Connect} {request : Nat} :
    Untouched s (.punched c .done) (s.punched c request) := by
  rw [Run.punched]
  rcases punched_cases s.app c.callId c.attempt (s.stopped.contains c.attempt) with
    hdown | ⟨-, hengine, hinstalled⟩
  · rw [hdown]
    exact untouched_of_same rfl rfl rfl
  · rw [hinstalled]
    exact ⟨fun _ hp _ _ => hp, fun _ hc _ => hc, fun e he => nomatch hengine.symm.trans he⟩

theorem untouched_step (h : Kept s) (hcareful : Careful s a) (hcall : a.callId?.isSome) :
    Untouched s a (s.step a) := by
  cases a with
  | prepare callId peerUid =>
    rw [Run.step, Run.prepare]
    rcases prepareBegin_cases s.app peerUid with ⟨e, hrefused⟩ | ⟨r, hcleared⟩
    · rw [hrefused]
      exact untouched_of_same rfl rfl rfl
    · rw [hcleared]
      cases r <;> exact untouched_of_cleared (fun _ _ => .inr trivial) (.inl rfl) rfl
  | gatherFailed p => exact untouched_of_same rfl rfl rfl
  | gathered q =>
    rw [Run.step]
    split
    · next hq =>
      rw [AppState.prepareFinish]
      split
      · exact untouched_of_same rfl rfl rfl
      · next hactive =>
        rw [Option.not_isSome_iff_eq_none] at hactive
        refine untouched_of_cleared (fun p hp => ?_) (.inl rfl) rfl
        -- Both were requested last.
        refine absurd ?_ (h.request_ne hp hq)
        exact Nat.succ.inj ((h.latest p hp).1.trans (hcareful hactive).1.symm)
    · exact untouched_of_same rfl rfl rfl
  | connect callId peerUid =>
    rw [Run.step, Run.connect]
    split <;> exact untouched_of_same rfl rfl rfl
  | rejected c =>
    rw [Run.step]
    split
    · exact untouched_of_cleared (fun p hp => .inl (congrArg some (hcareful p hp).symm)) (.inl rfl)
        rfl
    · exact untouched_of_same rfl rfl rfl
  | verified c =>
    rw [Run.step]
    split
    · exact untouched_verified hcareful
    · exact untouched_of_same rfl rfl rfl
  | deriveFailed c =>
    rw [Run.step]
    split
    · split
      · exact untouched_of_over (fun a ha => congrArg some (hcareful a ha).symm) rfl rfl
      · exact untouched_of_same rfl rfl rfl
    · exact untouched_of_same rfl rfl rfl
  | derived c =>
    rw [Run.step]
    split
    · split <;> exact untouched_of_same rfl rfl rfl
    · exact untouched_of_same rfl rfl rfl
  | punched c outcome =>
    rw [Run.step]
    split
    · split
      · cases outcome with
        | done => exact untouched_punched
        | failed =>
          dsimp only
          rcases punchFailed_cases s.app c.callId with hsame | ⟨⟨a, ha, hid⟩, hcleared⟩
          · rw [hsame]
            exact untouched_of_same rfl rfl rfl
          · rw [hcleared]
            refine untouched_of_over (fun a' ha' => congrArg some ?_) rfl rfl
            obtain rfl := Option.some.inj (ha.symm.trans ha')
            exact (hcareful a ha hid).symm
      · exact untouched_of_same rfl rfl rfl
    · exact untouched_of_same rfl rfl rfl
  | callEnd => cases hcall
  | others uid voiceEngine connectedVoiceChannel => cases hcall

end Apart

/-- Where every step is careful, attempts leave each other's calls alone. -/
theorem call_attempts_apart {s : Run} (hs : (callSystem.given Careful).Reachable s) :
    Apart Careful s := by
  have hkept : Kept s := by
    refine System.reachable_invariant ?_ ?_ hs
    · rintro s ⟨uid, voiceEngine, connectedVoiceChannel, rfl⟩
      exact
        { latest := nofun
          reports := fun _ hr => absurd hr List.not_mem_nil
          requested := .nil
          request_lt := fun _ hp => absurd hp List.not_mem_nil
          attempts := .nil
          attempt_lt := fun _ hc => absurd hc List.not_mem_nil
          active := fun _ hc => absurd hc List.not_mem_nil }
    · rintro s a s' h ⟨rfl, hcareful⟩
      exact kept_step h hcareful
  exact ⟨hkept.latest, hkept.reports, fun a hcareful hcall => untouched_step hkept hcareful hcall⟩

/-- Nobody is called yet. -/
def freshRun : Run := { app := { uid := 1 } }

/-- A call that is prepared and connected. -/
def connectedActions : List Action :=
  [.prepare "a" 7, .gathered ⟨"a", 7, 0⟩, .connect "a" 7, .verified ⟨"a", 7, 0, .verifying⟩,
    .derived ⟨"a", 7, 0, .deriving 0⟩, .punched ⟨"a", 7, 0, .punching 0⟩ .done]

theorem init_freshRun : callSystem.init freshRun := ⟨1, none, false, rfl⟩

theorem meets_connectedActions : System.Meets Run.step Careful freshRun connectedActions := by
  refine ⟨trivial, fun _ => by decide, trivial, fun _ _ p hp => ?_, trivial, trivial, trivial⟩
  obtain rfl := Option.some.inj hp
  rfl

theorem call_attempts_apart_connected :
    Apart Careful (connectedActions.foldl Run.step freshRun) ∧
      (connectedActions.foldl Run.step freshRun).reports = [(0, 0)] :=
  ⟨call_attempts_apart (System.Reachable.foldl_given (fun _ _ => rfl) (.init init_freshRun)
    meets_connectedActions), by decide +kernel⟩

/-- A call is ended while its peer is looked up, and another prepared. -/
def supersededActions : List Action :=
  [.prepare "a" 7, .gathered ⟨"a", 7, 0⟩, .connect "a" 7, .callEnd, .prepare "b" 8,
    .gathered ⟨"b", 8, 1⟩]

/-- When the first peer is refused, the second call is no longer prepared. -/
theorem not_call_attempts_apart :
    ¬∀ s, callSystem.Reachable s → Apart (fun _ _ => True) s := by
  intro h
  have hreach : callSystem.Reachable (supersededActions.foldl Run.step freshRun) :=
    System.Reachable.foldl (fun _ _ => rfl) _ (.init init_freshRun)
  have hkept := ((h _ hreach).untouched (.rejected ⟨"a", 7, 0, .verifying⟩) trivial rfl).pending
    ⟨"b", 8, 1⟩ (by decide +kernel) (by decide) (fun hnew => hnew.elim)
  exact absurd hkept (by decide +kernel)

end Decibell.CallAttempts
