import Decibell.Lib.Assoc
import Decibell.Lib.Run

/-!
# Screen shares

A screen share is started, stopped and moved by commands of the native client, while voice sessions
and calls come and go. A native start on Linux waits for the portal dialog and the announcement
before it stores its engine, every other one stores it at once.
-/

namespace Decibell.ScreenShare

open Lib List

/-- A server and a channel of it. -/
abbrev Target := String × String

structure StartScreenShareArgs where
  serverId : Option String
  channelId : Option String
  /-- Linux, with the native encoder. -/
  native : Bool
  shareAudio : Bool

/-- The engine of a share, and where it is announced. -/
structure VideoEngine where
  session : Nat
  announceTarget : Option Target
deriving DecidableEq

structure AppState where
  uid : Int
  videoEngine : Option VideoEngine := none
  audioStreamEngine : Option Nat := none
  /-- The number of the voice session. -/
  voiceEngine : Option Nat := none
  voiceMls : Option Target := none
  activeCall : Bool := false
  connectedVoiceChannel : Option String := none
  /-- The communities, and if their connection is up. -/
  communities : List (String × Bool) := []

namespace AppState

variable (s : AppState)

/-- The session of the engine that is stored. -/
def session? : Option Nat := s.videoEngine.map (·.session)

/-- Where a share is to be announced, if anywhere. -/
def startChecks (args : StartScreenShareArgs) : Except String (Option Target) :=
  if s.videoEngine.isSome then .error "Already sharing screen"
  else if s.voiceEngine.isNone then
    .error "Must be in a voice channel or call to share screen"
  else if s.uid ≤ 0 then .error "Not authenticated"
  else if s.activeCall then .ok none
  else
    match args.serverId, args.channelId with
    | none, _ => .error "server_id required outside a call"
    | _, none => .error "channel_id required outside a call"
    | some serverId, some channelId =>
      match s.communities.lookup serverId with
      | none => .error ("Not connected to community " ++ serverId)
      | some false => .error "Community connection lost"
      | some true => .ok (some (serverId, channelId))

/-- Where the share that is stopped is announced. -/
def stopTarget (fallback : Option Target) : Option Target :=
  if s.videoEngine.isSome && !s.activeCall then
    ((s.videoEngine.bind (·.announceTarget)).or fallback).filter fun t =>
      s.communities.lookup t.1 = some true
  else none

end AppState

/-- Where a start is. -/
inductive Stage where
  | portal
  | announcing
  | storing
  | discarding
deriving DecidableEq

/-- A start on its way. -/
structure Start where
  native : Bool
  announce : Option Target
  shareAudio : Bool
  /-- The voice session whose sockets it took. -/
  voice : Nat
  stage : Stage
  overtaken : Bool := false
deriving DecidableEq

/-- A start that is over. -/
structure Returned where
  session : Nat
  ok : Bool
  overtaken : Bool
deriving DecidableEq

inductive Action where
  /-- A start's first section: whether the pipeline captures, and its audio. -/
  | start (args : StartScreenShareArgs) (captures audio : Bool)
  | portal (n : Nat) (ok : Bool)
  | announced (n : Nat) (ok : Bool)
  | stored (n : Nat) (audio : Bool)
  | discard (n : Nat)
  | stop (fallback : Option Target)
  | stopSent (t : Target)
  /-- An engine that was taken out is dropped. -/
  | dropped (n : Nat)
  | move (t : Target)
  | moveSent (n : Nat) (t : Target) (ok : Bool)
  | join (t : Target) (ok : Bool)
  | leave
  | callEnd
  /-- A call is connected, and has its engine. -/
  | callConnect
  | callEngine
  | others (uid : Int) (communities : List (String × Bool))

structure Run where
  app : AppState
  frameSink : Option Nat := none
  starts : Assoc Nat Start := .empty
  /-- The announcements of moves, and the ends of shares, to be sent. -/
  moves : List (Nat × Target) := []
  stops : List Target := []
  /-- The announcements that stand, each with its session. -/
  announced : List (Nat × Target) := []
  returned : List Returned := []
  /-- The numbers of the next session and of the next voice session. -/
  sessions : Nat := 0
  voices : Nat := 0

namespace Run

variable (s : Run)

/-- `clear_frame_sink_if`, where a session's engine is dropped. -/
def clearFrameSinkIf (n : Nat) : Option Nat := if s.frameSink = some n then none else s.frameSink

/-- A start is over. -/
def finish (n : Nat) (st : Start) (ok : Bool) : Run :=
  { s with
    starts := s.starts.remove n
    returned := { session := n, ok, overtaken := st.overtaken } :: s.returned }

def overtake (p : Start → Bool) : Assoc Nat Start :=
  s.starts.mapValues fun _ st => { st with overtaken := st.overtaken || p st }

/-- The first section of a start that is not refused. -/
def begin (args : StartScreenShareArgs) (captures audio : Bool) (announce : Option Target)
    (voice : Nat) : Run :=
  let n := s.sessions
  let s := { s with sessions := n + 1, frameSink := some n }
  let start : Start :=
    { native := args.native, announce, shareAudio := args.shareAudio, voice, stage := .portal }
  if args.native then { s with starts := s.starts.insert n start }
  else if !captures then
    { s with
      frameSink := s.clearFrameSinkIf n
      returned := { session := n, ok := false, overtaken := false } :: s.returned }
  else
    let s :=
      { s with
        app :=
          { s.app with
            videoEngine := some { session := n, announceTarget := announce }
            audioStreamEngine :=
              if args.shareAudio && audio then some n else s.app.audioStreamEngine } }
    match announce with
    | none =>
      { s with returned := { session := n, ok := true, overtaken := false } :: s.returned }
    | some _ => { s with starts := s.starts.insert n { start with stage := .announcing } }

def start (args : StartScreenShareArgs) (captures audio : Bool) : Run :=
  match s.app.startChecks args, s.app.voiceEngine with
  | .ok announce, some voice => s.begin args captures audio announce voice
  | _, _ => s

/-- The portal dialog. -/
def portal (n : Nat) (st : Start) (ok : Bool) : Run :=
  if ok then
    let stage := if st.announce.isSome then Stage.announcing else .storing
    { s with starts := s.starts.insert n { st with stage } }
  else { s.finish n st false with frameSink := s.clearFrameSinkIf n }

/-- The announcement of a start. -/
def announce (n : Nat) (st : Start) (ok : Bool) : Run :=
  match ok, st.native with
  | true, true =>
    { s with
      starts := s.starts.insert n { st with stage := .storing }
      announced := st.announce.toList.map (n, ·) ++ s.announced }
  | true, false =>
    { s.finish n st true with announced := st.announce.toList.map (n, ·) ++ s.announced }
  | false, true => { s.finish n st false with frameSink := s.clearFrameSinkIf n }
  | false, false => { s with starts := s.starts.insert n { st with stage := .discarding } }

/-- The last section of a native start. -/
def store (n : Nat) (st : Start) (audio : Bool) : Run :=
  let s' := s.finish n st true
  { s' with
    app :=
      { s.app with
        videoEngine := some { session := n, announceTarget := st.announce }
        audioStreamEngine :=
          if st.shareAudio && audio then some n else s.app.audioStreamEngine } }

/-- `discard_session_engines`. -/
def discard (n : Nat) (st : Start) : Run :=
  let s' := s.finish n st false
  if s.app.session? = some n then
    { s' with app := { s.app with videoEngine := none, audioStreamEngine := none } }
  else s'

/-- Does what a start does next, if it is there. -/
def ofStart (n : Nat) (stage : Stage) (f : Start → Run) : Run :=
  match s.starts.get? n with
  | some st => if st.stage = stage then f st else s
  | none => s

def stop (fallback : Option Target) : Run :=
  { s with
    app := { s.app with videoEngine := none, audioStreamEngine := none }
    stops := (s.app.stopTarget fallback).toList ++ s.stops
    starts := s.overtake fun _ => true }

def move (t : Target) : Run :=
  match s.app.videoEngine with
  | none => s
  | some video =>
    if s.app.voiceEngine.isSome ∧ s.app.voiceMls = some t then
      { s with
        app := { s.app with videoEngine := some { video with announceTarget := some t } }
        moves :=
          if s.app.communities.lookup t.1 = some true then (video.session, t) :: s.moves
          else s.moves }
    else s

/-- The voice session is over. -/
def endVoice : Run :=
  { s with
    app :=
      { s.app with voiceEngine := none, voiceMls := none, connectedVoiceChannel := none }
    starts := s.overtake fun st => s.app.voiceEngine = some st.voice }

def join (t : Target) (ok : Bool) : Run :=
  if s.app.activeCall then s
  else
    let s := s.endVoice
    if ok then
      { s with
        app :=
          { s.app with
            voiceEngine := some s.voices
            voiceMls := some t
            connectedVoiceChannel := some t.2 }
        voices := s.voices + 1 }
    else s

def callEnd : Run :=
  if s.app.activeCall && s.app.connectedVoiceChannel.isNone then
    { s with
      app :=
        { s.app with
          activeCall := false
          voiceEngine := none
          videoEngine := none
          audioStreamEngine := none }
      starts := s.overtake fun st => s.app.voiceEngine = some st.voice }
  else { s with app := { s.app with activeCall := false } }

/-- A step. A start that is not where the step is from takes none. -/
def step : Action → Run
  | .start args captures audio => s.start args captures audio
  | .portal n ok => s.ofStart n .portal fun st => s.portal n st ok
  | .announced n ok => s.ofStart n .announcing fun st => s.announce n st ok
  | .stored n audio => s.ofStart n .storing fun st => s.store n st audio
  | .discard n => s.ofStart n .discarding fun st => s.discard n st
  | .stop fallback => s.stop fallback
  | .stopSent t =>
    if t ∈ s.stops then
      { s with stops := s.stops.erase t, announced := s.announced.filter (·.2 ≠ t) }
    else s
  | .dropped n =>
    if s.app.session? ≠ some n ∧ (s.starts.get? n).isNone then
      { s with frameSink := s.clearFrameSinkIf n }
    else s
  | .move t => s.move t
  | .moveSent n t ok =>
    if (n, t) ∈ s.moves then
      { s with
        moves := s.moves.erase (n, t)
        announced := if ok then (n, t) :: s.announced else s.announced }
    else s
  | .join t ok => s.join t ok
  | .leave => s.endVoice
  | .callEnd => s.callEnd
  | .callConnect =>
    if !s.app.activeCall && s.app.voiceEngine.isNone then
      { s with app := { s.app with activeCall := true } }
    else s
  | .callEngine =>
    if s.app.activeCall && s.app.voiceEngine.isNone then
      { s with app := { s.app with voiceEngine := some s.voices }, voices := s.voices + 1 }
    else s
  | .others uid communities => { s with app := { s.app with uid, communities } }

end Run

/-- Any steps, from a state without shares. -/
def shareSystem : System Run Action where
  init s := ∃ uid, s = { app := { uid } }
  step s a s' := s' = s.step a

/-! ## What a share may do -/

namespace Run

variable (s : Run)

/-- A session's engine captures: stored, or of a native start behind the portal. -/
def Captures (n : Nat) : Prop :=
  s.app.session? = some n ∨
    ∃ st, s.starts.get? n = some st ∧ st.native = true ∧ st.stage ≠ .portal

/-- A share is live, or starts and was not overtaken. -/
def Live (n : Nat) : Prop :=
  s.app.session? = some n ∨ ∃ st, s.starts.get? n = some st ∧ st.overtaken = false

end Run

/-- The session that a step of a start is of. -/
def Action.session? (s : Run) : Action → Option Nat
  | .start .. => some s.sessions
  | .portal n _ => some n
  | .announced n _ => some n
  | .stored n _ => some n
  | .discard n => some n
  | _ => none

/-- What another session has stays as it is. -/
structure Untouched (s s' : Run) (m : Nat) : Prop where
  video : s.app.session? = some m → s'.app.videoEngine = s.app.videoEngine
  audio : s.app.audioStreamEngine = some m → s'.app.audioStreamEngine = some m
  frameSink : s.frameSink = some m → s'.frameSink = some m

/-- No share goes live that should not: here, and in a next step that meets a condition. -/
structure Sound (C : Run → Action → Prop) (s : Run) : Prop where
  oneCaptures : ∀ m n, s.Captures m → s.Captures n → m = n
  /-- A start is refused while another share starts or is live. -/
  refused : ∀ args captures audio, C s (.start args captures audio) → (∃ n, s.Live n) →
    s.step (.start args captures audio) = s
  /-- A start that fails leaves nothing of its own, -/
  failed : ∀ r ∈ s.returned, r.ok = false →
    ¬s.Captures r.session ∧ ∀ t, (r.session, t) ∉ s.announced ∧ (r.session, t) ∉ s.moves
  /-- and touches nothing of another session. -/
  untouched : ∀ a n, a.session? s = some n → C s a → ∀ m, m ≠ n → s.Live m →
    Untouched s (s.step a) m
  /-- A start that was overtaken is not live. -/
  overtaken : ∀ r ∈ s.returned, r.overtaken = true → ¬s.Captures r.session

/-- What a step has to find:

    * a start not refused: native starts only before the portal, and overtaken;
    * behind the portal: no engine that captures;
    * a native start that stores its engine was not overtaken, and one done that stored it at
      once was not either, or the engine is out again;
    * the engine a failed start takes out was not announced by a move. -/
def Careful (s : Run) : Action → Prop
  | .start args _ _ => (s.app.startChecks args).isOk = true → ∀ n st, s.starts.get? n = some st →
      st.native = true → st.overtaken = true ∧ st.stage = .portal
  | .portal _ ok => ok = true → ∀ m, ¬s.Captures m
  | .stored n _ => ∀ st, s.starts.get? n = some st → st.overtaken = false
  | .announced n ok => ok = true → ∀ st, s.starts.get? n = some st → st.native = false →
      st.overtaken = true → s.app.session? ≠ some n
  | .discard n => ∀ t, (n, t) ∉ s.announced ∧ (n, t) ∉ s.moves
  | _ => True

/-! ## What the commands keep -/

/-- What holds where every step is careful. -/
structure Kept (s : Run) : Prop where
  /-- Sessions are numbered. -/
  started : ∀ n st, s.starts.get? n = some st → n < s.sessions
  session_lt : ∀ n, s.app.session? = some n → n < s.sessions
  moved_lt : ∀ n t, (n, t) ∈ s.moves → n < s.sessions
  announced_lt : ∀ n t, (n, t) ∈ s.announced → n < s.sessions
  returned_lt : ∀ r ∈ s.returned, r.session < s.sessions
  finished : ∀ r ∈ s.returned, s.starts.get? r.session = none
  /-- A start that was not overtaken has its voice session, -/
  voice : ∀ n st, s.starts.get? n = some st → st.overtaken = false →
    s.app.voiceEngine = some st.voice
  /-- and its engine, if it stored that at once. -/
  direct : ∀ n st, s.starts.get? n = some st → st.native = false → st.overtaken = false →
    s.app.session? = some n
  /-- A native start has stored no engine, and nothing of it was moved. -/
  native : ∀ n st, s.starts.get? n = some st → st.native = true → s.app.session? ≠ some n ∧
    (∀ t, (n, t) ∉ s.moves) ∧ (st.stage ≠ .storing → ∀ t, (n, t) ∉ s.announced)
  discarding : ∀ n st, s.starts.get? n = some st → st.stage = .discarding → st.native = false
  stages : ∀ n st, s.starts.get? n = some st → st.native = false →
    st.stage = .announcing ∨ st.stage = .discarding
  audio : ∀ n, s.app.audioStreamEngine = some n → s.app.session? = some n
  oneCaptures : ∀ m n, s.Captures m → s.Captures n → m = n
  failed : ∀ r ∈ s.returned, r.ok = false → s.app.session? ≠ some r.session ∧
    ∀ t, (r.session, t) ∉ s.announced ∧ (r.session, t) ∉ s.moves
  overtaken : ∀ r ∈ s.returned, r.overtaken = true → s.app.session? ≠ some r.session

section Steps

variable {s : Run} {n : Nat} {st : Start}

theorem session?_eq_none (h : s.app.videoEngine = none) : s.app.session? = none := by
  rw [AppState.session?, h]
  rfl

theorem Kept.session_ne (h : Kept s) (hget : s.starts.get? n = some st) {r : Returned}
    (hr : r ∈ s.returned) : r.session ≠ n := by
  rintro rfl
  have hnone := h.finished r hr
  rw [hget] at hnone
  cases hnone

theorem mem_of_mem_sent {sent announced : List (Nat × Target)} (hsent : ∀ a ∈ sent, a.1 = n)
    {m : Nat} {t : Target} (ht : (m, t) ∈ sent ++ announced) (hne : m ≠ n) :
    (m, t) ∈ announced := by
  rcases mem_append.1 ht with ht | ht
  · exact absurd (hsent _ ht) hne
  · exact ht

/-- No start begins or ends: at most they are overtaken, and the engine is taken out. -/
theorem kept_quiet (h : Kept s) {s' : Run}
    (hstarts : ∀ n st', s'.starts.get? n = some st' → ∃ st, s.starts.get? n = some st ∧
      st'.native = st.native ∧ st'.stage = st.stage ∧ st'.voice = st.voice ∧
        (st'.overtaken = false → st.overtaken = false))
    (hgone : ∀ n, s.starts.get? n = none → s'.starts.get? n = none)
    (hsession : s'.app.session? = s.app.session? ∨ s'.app.session? = none)
    (hdirect : ∀ n st', s'.starts.get? n = some st' → st'.overtaken = false →
      s'.app.session? = s.app.session?)
    (hvoice : ∀ n st', s'.starts.get? n = some st' → st'.overtaken = false →
      s.app.voiceEngine = some st'.voice → s'.app.voiceEngine = some st'.voice)
    (haudio : ∀ n, s'.app.audioStreamEngine = some n →
      s.app.audioStreamEngine = some n ∧ s'.app.session? = s.app.session?)
    (hmoves : ∀ n t, (n, t) ∈ s'.moves → (n, t) ∈ s.moves ∨ s.app.session? = some n)
    (hannounced : ∀ n t, (n, t) ∈ s'.announced → (n, t) ∈ s.announced ∨ (n, t) ∈ s.moves)
    (hreturned : s'.returned = s.returned) (hsessions : s'.sessions = s.sessions) : Kept s' := by
  have hback {n : Nat} (hn : s'.app.session? = some n) : s.app.session? = some n := by
    rcases hsession with hsame | hnone
    · exact hsame.symm.trans hn
    · rw [hnone] at hn
      cases hn
  have hcaptures {n : Nat} (hn : s'.Captures n) : s.Captures n := by
    rcases hn with hn | ⟨st', hst', hnative, hstage⟩
    · exact .inl (hback hn)
    · obtain ⟨st, hst, hnat, hstg, -, -⟩ := hstarts n st' hst'
      exact .inr ⟨st, hst, hnat ▸ hnative, hstg ▸ hstage⟩
  exact
    { started := fun n st' hst' => by
        obtain ⟨st, hst, -⟩ := hstarts n st' hst'
        rw [hsessions]
        exact h.started n st hst
      session_lt := fun n hn => by
        rw [hsessions]
        exact h.session_lt n (hback hn)
      moved_lt := fun n t ht => by
        rw [hsessions]
        exact (hmoves n t ht).elim (h.moved_lt n t) (h.session_lt n)
      announced_lt := fun n t ht => by
        rw [hsessions]
        exact (hannounced n t ht).elim (h.announced_lt n t) (h.moved_lt n t)
      returned_lt := by
        rw [hreturned, hsessions]
        exact h.returned_lt
      finished := by
        rw [hreturned]
        exact fun r hr => hgone _ (h.finished r hr)
      voice := fun n st' hst' hrun => by
        obtain ⟨st, hst, -, -, hv, hover⟩ := hstarts n st' hst'
        exact hvoice n st' hst' hrun (hv ▸ h.voice n st hst (hover hrun))
      direct := fun n st' hst' hnative hrun => by
        obtain ⟨st, hst, hnat, -, -, hover⟩ := hstarts n st' hst'
        exact (hdirect n st' hst' hrun).trans
          (h.direct n st hst (hnat.symm.trans hnative) (hover hrun))
      native := fun n st' hst' hnative => by
        obtain ⟨st, hst, hnat, hstg, -, -⟩ := hstarts n st' hst'
        obtain ⟨hnot, hunmoved, hunsent⟩ := h.native n st hst (hnat.symm.trans hnative)
        refine ⟨fun hn => hnot (hback hn), fun t ht => ?_, fun hstage t ht => ?_⟩
        · exact (hmoves n t ht).elim (hunmoved t) hnot
        · exact (hannounced n t ht).elim (hunsent (hstg ▸ hstage) t) (hunmoved t)
      stages := fun n st' hst' hnative => by
        obtain ⟨st, hst, hnat, hstg, -, -⟩ := hstarts n st' hst'
        rw [hstg]
        exact h.stages n st hst (hnat.symm.trans hnative)
      discarding := fun n st' hst' hstage => by
        obtain ⟨st, hst, hnat, hstg, -, -⟩ := hstarts n st' hst'
        rw [hnat]
        exact h.discarding n st hst (hstg.symm.trans hstage)
      audio := fun n hn => by
        obtain ⟨hbefore, hsame⟩ := haudio n hn
        exact hsame.trans (h.audio n hbefore)
      oneCaptures := fun m n hm hn => h.oneCaptures m n (hcaptures hm) (hcaptures hn)
      failed := by
        rw [hreturned]
        intro r hr hok
        obtain ⟨hnot, hunsent⟩ := h.failed r hr hok
        refine ⟨fun hn => hnot (hback hn), fun t => ⟨fun ht => ?_, fun ht => ?_⟩⟩
        · exact (hannounced _ t ht).elim (hunsent t).1 (hunsent t).2
        · exact (hmoves _ t ht).elim (hunsent t).2 hnot
      overtaken := by
        rw [hreturned]
        exact fun r hr hover hn => h.overtaken r hr hover (hback hn) }

/-- A start goes on; it captures behind the portal, where nothing else does. -/
theorem kept_restage (h : Kept s) (hget : s.starts.get? n = some st) {stage : Stage}
    (hdiscarding : stage = .discarding → st.native = false)
    (hstages : st.native = false → stage = .announcing ∨ stage = .discarding)
    (hcaptures : stage ≠ .portal → st.stage ≠ .portal ∨ ∀ m, ¬s.Captures m)
    {sent : List (Nat × Target)} (hsent : ∀ a ∈ sent, a.1 = n ∧ stage = .storing)
    (hstoring : stage = .storing ∨ st.stage ≠ .storing) :
    Kept { s with
      starts := s.starts.insert n { st with stage }
      announced := sent ++ s.announced } := by
  have hlt := h.started n st hget
  have hreturned {r : Returned} (hr : r ∈ s.returned) := h.session_ne hget hr
  have hannounced {m : Nat} {t : Target} (ht : (m, t) ∈ sent ++ s.announced) (hne : m ≠ n) :=
    mem_of_mem_sent (fun a ha => (hsent a ha).1) ht hne
  have hcases {m : Nat} {st' : Start} (hst' : (s.starts.insert n { st with stage }).get? m =
      some st') := Assoc.get?_insert_eq_some hst'
  have hbefore {m : Nat} (hm : Run.Captures { s with
      starts := s.starts.insert n { st with stage }
      announced := sent ++ s.announced } m) : s.Captures m ∨ m = n ∧ ∀ k, ¬s.Captures k := by
    rcases hm with hm | ⟨st', hst', hnative, hstage⟩
    · exact .inl (.inl hm)
    · rcases hcases hst' with ⟨rfl, rfl⟩ | ⟨-, hst'⟩
      · rcases hcaptures hstage with hportal | hnone
        · exact .inl (.inr ⟨st, hget, hnative, hportal⟩)
        · exact .inr ⟨rfl, hnone⟩
      · exact .inl (.inr ⟨st', hst', hnative, hstage⟩)
  exact
    { started := fun m st' hst' => by
        rcases hcases hst' with ⟨rfl, -⟩ | ⟨-, hst'⟩
        · exact hlt
        · exact h.started m st' hst'
      session_lt := h.session_lt
      moved_lt := h.moved_lt
      announced_lt := fun m t ht => by
        rcases mem_append.1 ht with ht | ht
        · exact (hsent _ ht).1 ▸ hlt
        · exact h.announced_lt m t ht
      returned_lt := h.returned_lt
      finished := fun r hr => by
        dsimp only
        rw [Assoc.get?_insert, if_neg (hreturned hr)]
        exact h.finished r hr
      voice := fun m st' hst' hrun => by
        rcases hcases hst' with ⟨rfl, rfl⟩ | ⟨-, hst'⟩
        · exact h.voice m st hget hrun
        · exact h.voice m st' hst' hrun
      direct := fun m st' hst' hnative hrun => by
        rcases hcases hst' with ⟨rfl, rfl⟩ | ⟨-, hst'⟩
        · exact h.direct m st hget hnative hrun
        · exact h.direct m st' hst' hnative hrun
      native := fun m st' hst' hnative => by
        rcases hcases hst' with ⟨rfl, rfl⟩ | ⟨hne, hst'⟩
        · obtain ⟨hnot, hunmoved, hunsent⟩ := h.native m st hget hnative
          refine ⟨hnot, hunmoved, fun hstage t ht => ?_⟩
          rcases mem_append.1 ht with ht | ht
          · exact hstage (hsent _ ht).2
          · exact hstoring.elim hstage (fun hstage' => hunsent hstage' t ht)
        · obtain ⟨hnot, hunmoved, hunsent⟩ := h.native m st' hst' hnative
          exact ⟨hnot, hunmoved, fun hstage t ht => hunsent hstage t (hannounced ht hne)⟩
      stages := fun m st' hst' hnative => by
        rcases hcases hst' with ⟨rfl, rfl⟩ | ⟨-, hst'⟩
        · exact hstages hnative
        · exact h.stages m st' hst' hnative
      discarding := fun m st' hst' hstage => by
        rcases hcases hst' with ⟨rfl, rfl⟩ | ⟨-, hst'⟩
        · exact hdiscarding hstage
        · exact h.discarding m st' hst' hstage
      audio := h.audio
      oneCaptures := fun m k hm hk => by
        rcases hbefore hm with hm | ⟨rfl, hnone⟩
        · rcases hbefore hk with hk | ⟨-, hnone⟩
          · exact h.oneCaptures m k hm hk
          · exact absurd hm (hnone m)
        · rcases hbefore hk with hk | ⟨rfl, -⟩
          · exact absurd hk (hnone k)
          · rfl
      failed := fun r hr hok => by
        obtain ⟨hnot, hunsent⟩ := h.failed r hr hok
        exact ⟨hnot, fun t => ⟨fun ht => (hunsent t).1 (hannounced ht (hreturned hr)),
          (hunsent t).2⟩⟩
      overtaken := h.overtaken }

theorem kept_finish (h : Kept s) (hget : s.starts.get? n = some st) {app : AppState}
    {frameSink : Option Nat} {ok : Bool} {sent : List (Nat × Target)}
    (hsent : ∀ a ∈ sent, a.1 = n) (hvoice : app.voiceEngine = s.app.voiceEngine)
    (hothers : ∀ m, m ≠ n → (app.session? = some m ↔ s.app.session? = some m))
    (haudio : ∀ m, app.audioStreamEngine = some m → app.session? = some m)
    (hfailed : ok = false → app.session? ≠ some n ∧
      ∀ t, (n, t) ∉ sent ++ s.announced ∧ (n, t) ∉ s.moves)
    (hovertaken : st.overtaken = true → app.session? ≠ some n)
    (hcaptures : app.session? = some n → s.Captures n) :
    Kept { s.finish n st ok with app, frameSink, announced := sent ++ s.announced } := by
  have hlt := h.started n st hget
  have hreturned {r : Returned} (hr : r ∈ s.returned) := h.session_ne hget hr
  have hannounced {m : Nat} {t : Target} (ht : (m, t) ∈ sent ++ s.announced) (hne : m ≠ n) :=
    mem_of_mem_sent hsent ht hne
  have hcases {m : Nat} {st' : Start} (hst' : (s.starts.remove n).get? m = some st') :=
    Assoc.get?_remove_eq_some hst'
  have hsession {m : Nat} (hm : app.session? = some m) : m = n ∨ s.app.session? = some m := by
    rcases eq_or_ne m n with heq | hne
    · exact .inl heq
    · exact .inr ((hothers m hne).1 hm)
  have hbefore {m : Nat} (hm : Run.Captures
      { s.finish n st ok with app, frameSink, announced := sent ++ s.announced } m) :
      s.Captures m := by
    rcases hm with hm | ⟨st', hst', hcap⟩
    · rcases hsession hm with rfl | hm
      · exact hcaptures hm
      · exact .inl hm
    · exact .inr ⟨st', (hcases hst').2, hcap⟩
  exact
    { started := fun m st' hst' => h.started m st' (hcases hst').2
      session_lt := fun m hm => (hsession hm).elim (· ▸ hlt) (h.session_lt m)
      moved_lt := h.moved_lt
      announced_lt := fun m t ht => by
        rcases mem_append.1 ht with ht | ht
        · exact hsent _ ht ▸ hlt
        · exact h.announced_lt m t ht
      returned_lt := forall_mem_cons.2 ⟨hlt, h.returned_lt⟩
      finished := by
        refine forall_mem_cons.2 ⟨Assoc.get?_remove.trans (if_pos rfl), fun r hr => ?_⟩
        exact Assoc.get?_remove.trans ((if_neg (hreturned hr)).trans (h.finished r hr))
      voice := fun m st' hst' hrun => hvoice.trans (h.voice m st' (hcases hst').2 hrun)
      direct := fun m st' hst' hnative hrun =>
        (hothers m (hcases hst').1).2 (h.direct m st' (hcases hst').2 hnative hrun)
      native := fun m st' hst' hnative => by
        obtain ⟨hne, hst'⟩ := hcases hst'
        obtain ⟨hnot, hunmoved, hunsent⟩ := h.native m st' hst' hnative
        exact ⟨fun hm => hnot ((hothers m hne).1 hm), hunmoved, fun hstage t ht =>
          hunsent hstage t (hannounced ht hne)⟩
      stages := fun m st' hst' => h.stages m st' (hcases hst').2
      discarding := fun m st' hst' => h.discarding m st' (hcases hst').2
      audio := haudio
      oneCaptures := fun m k hm hk => h.oneCaptures m k (hbefore hm) (hbefore hk)
      failed := by
        refine forall_mem_cons.2 ⟨hfailed, fun r hr hok => ?_⟩
        obtain ⟨hnot, hunsent⟩ := h.failed r hr hok
        exact ⟨fun hm => hnot ((hothers _ (hreturned hr)).1 hm), fun t =>
          ⟨fun ht => (hunsent t).1 (hannounced ht (hreturned hr)), (hunsent t).2⟩⟩
      overtaken := by
        refine forall_mem_cons.2 ⟨hovertaken, fun r hr hover hm => ?_⟩
        exact h.overtaken r hr hover ((hothers _ (hreturned hr)).1 hm) }

end Steps

section Begin

variable {s : Run} {args : StartScreenShareArgs} {captures audio : Bool}

/-- Nothing starts that was not overtaken, and nothing is live. -/
structure Free (s : Run) : Prop where
  session : s.app.session? = none
  audio : s.app.audioStreamEngine = none
  captures : ∀ m, ¬s.Captures m
  overtaken : ∀ m st, s.starts.get? m = some st → st.overtaken = true

theorem startChecks_ok {announce : Option Target} (h : s.app.startChecks args = .ok announce) :
    s.app.videoEngine = none := by
  rw [AppState.startChecks] at h
  split at h
  · cases h
  · next hnone => exact Option.not_isSome_iff_eq_none.1 hnone

theorem Kept.free (h : Kept s) (hcareful : Careful s (.start args captures audio))
    {announce : Option Target} (hchecks : s.app.startChecks args = .ok announce) : Free s := by
  have hsession := session?_eq_none (startChecks_ok hchecks)
  have hnative := hcareful (by rw [hchecks]; rfl)
  refine ⟨hsession, ?_, ?_, fun m st hst => ?_⟩
  · cases haudio : s.app.audioStreamEngine with
    | none => rfl
    | some m =>
      have hm := h.audio m haudio
      rw [hsession] at hm
      cases hm
  · rintro m (hm | ⟨st, hst, hnat, hstage⟩)
    · rw [hsession] at hm
      cases hm
    · exact hstage (hnative m st hst hnat).2
  · cases hover : st.overtaken with
    | true => rfl
    | false =>
      cases hnat : st.native with
      | true => exact hover.symm.trans (hnative m st hst hnat).1
      | false =>
        -- Its engine would be stored.
        have hm := h.direct m st hst hnat hover
        rw [hsession] at hm
        cases hm

theorem kept_launch (h : Kept s) (hfree : Free s) {app : AppState} {frameSink : Option Nat}
    {st : Start} (hvoice : app.voiceEngine = s.app.voiceEngine)
    (hstvoice : s.app.voiceEngine = some st.voice)
    (haudio : ∀ m, app.audioStreamEngine = some m → app.session? = some m)
    (hkind : st.native = true ∧ app.session? = none ∧ st.stage = .portal ∨
      st.native = false ∧ app.session? = some s.sessions ∧ st.stage = .announcing) :
    Kept { s with
      sessions := s.sessions + 1
      frameSink
      app
      starts := s.starts.insert s.sessions st } := by
  have hcases {m : Nat} {st' : Start} (hst' : (s.starts.insert s.sessions st).get? m =
      some st') := Assoc.get?_insert_eq_some hst'
  have hsession {m : Nat} (hm : app.session? = some m) : m = s.sessions := by
    rcases hkind with ⟨-, hnone, -⟩ | ⟨-, hsome, -⟩
    · rw [hnone] at hm
      cases hm
    · exact Option.some.inj (hm.symm.trans hsome)
  have hcaptures {m : Nat} (hm : Run.Captures { s with
      sessions := s.sessions + 1
      frameSink
      app
      starts := s.starts.insert s.sessions st } m) : m = s.sessions := by
    rcases hm with hm | ⟨st', hst', hcap⟩
    · exact hsession hm
    · rcases hcases hst' with ⟨heq, -⟩ | ⟨-, hst'⟩
      · exact heq
      · exact absurd (.inr ⟨st', hst', hcap⟩) (hfree.captures m)
  exact
    { started := fun m st' hst' => by
        rcases hcases hst' with ⟨rfl, -⟩ | ⟨-, hst'⟩
        · exact Nat.lt_succ_self _
        · exact Nat.lt_succ_of_lt (h.started m st' hst')
      session_lt := fun m hm => hsession hm ▸ Nat.lt_succ_self _
      moved_lt := fun m t ht => Nat.lt_succ_of_lt (h.moved_lt m t ht)
      announced_lt := fun m t ht => Nat.lt_succ_of_lt (h.announced_lt m t ht)
      returned_lt := fun r hr => Nat.lt_succ_of_lt (h.returned_lt r hr)
      finished := fun r hr => by
        dsimp only
        rw [Assoc.get?_insert, if_neg (Nat.ne_of_lt (h.returned_lt r hr))]
        exact h.finished r hr
      voice := fun m st' hst' hrun => by
        rcases hcases hst' with ⟨-, rfl⟩ | ⟨-, hst'⟩
        · exact hvoice.trans hstvoice
        · exact hvoice.trans (h.voice m st' hst' hrun)
      direct := fun m st' hst' hnative hrun => by
        rcases hcases hst' with ⟨rfl, rfl⟩ | ⟨-, hst'⟩
        · rcases hkind with ⟨hnat, -⟩ | ⟨-, hsome, -⟩
          · exact absurd (hnative.symm.trans hnat) Bool.noConfusion
          · exact hsome
        · exact absurd ((hfree.overtaken m st' hst').symm.trans hrun) Bool.noConfusion
      native := fun m st' hst' hnative => by
        rcases hcases hst' with ⟨rfl, rfl⟩ | ⟨hne, hst'⟩
        · refine ⟨fun hm => ?_, fun t ht => absurd (h.moved_lt _ t ht) (Nat.lt_irrefl _),
            fun _ t ht => absurd (h.announced_lt _ t ht) (Nat.lt_irrefl _)⟩
          rcases hkind with ⟨-, hnone, -⟩ | ⟨hnat, -⟩
          · rw [hnone] at hm
            cases hm
          · exact absurd (hnative.symm.trans hnat) Bool.noConfusion
        · obtain ⟨-, hunmoved, hunsent⟩ := h.native m st' hst' hnative
          exact ⟨fun hm => hne (hsession hm), hunmoved, hunsent⟩
      stages := fun m st' hst' hnative => by
        rcases hcases hst' with ⟨-, rfl⟩ | ⟨-, hst'⟩
        · rcases hkind with ⟨hnat, -⟩ | ⟨-, -, hstage⟩
          · exact absurd (hnative.symm.trans hnat) Bool.noConfusion
          · exact .inl hstage
        · exact h.stages m st' hst' hnative
      discarding := fun m st' hst' hstage => by
        rcases hcases hst' with ⟨-, rfl⟩ | ⟨-, hst'⟩
        · rcases hkind with ⟨-, -, hstage'⟩ | ⟨hnat, -⟩
          · exact absurd (hstage.symm.trans hstage') Stage.noConfusion
          · exact hnat
        · exact h.discarding m st' hst' hstage
      audio := haudio
      oneCaptures := fun m k hm hk => (hcaptures hm).trans (hcaptures hk).symm
      failed := fun r hr hok =>
        ⟨fun hm => Nat.ne_of_lt (h.returned_lt r hr) (hsession hm), (h.failed r hr hok).2⟩
      overtaken := fun r hr _ hm => Nat.ne_of_lt (h.returned_lt r hr) (hsession hm) }

theorem kept_at_once (h : Kept s) (hfree : Free s) {app : AppState} {frameSink : Option Nat}
    {ok : Bool} (hvoice : app.voiceEngine = s.app.voiceEngine)
    (haudio : ∀ m, app.audioStreamEngine = some m → app.session? = some m)
    (hsession : ∀ m, app.session? = some m → m = s.sessions ∧ ok = true) :
    Kept { s with
      sessions := s.sessions + 1
      frameSink
      app
      returned := { session := s.sessions, ok, overtaken := false } :: s.returned } := by
  have hcaptures {m : Nat} (hm : Run.Captures { s with
      sessions := s.sessions + 1
      frameSink
      app
      returned := { session := s.sessions, ok, overtaken := false } :: s.returned } m) :
      m = s.sessions := by
    rcases hm with hm | hm
    · exact (hsession m hm).1
    · exact absurd (.inr hm) (hfree.captures m)
  have hnew : s.starts.get? s.sessions = none := by
    cases hget : s.starts.get? s.sessions with
    | none => rfl
    | some st => exact absurd (h.started _ st hget) (Nat.lt_irrefl _)
  exact
    { started := fun m st' hst' => Nat.lt_succ_of_lt (h.started m st' hst')
      session_lt := fun m hm => (hsession m hm).1 ▸ Nat.lt_succ_self _
      moved_lt := fun m t ht => Nat.lt_succ_of_lt (h.moved_lt m t ht)
      announced_lt := fun m t ht => Nat.lt_succ_of_lt (h.announced_lt m t ht)
      returned_lt := forall_mem_cons.2 ⟨Nat.lt_succ_self _, fun r hr =>
        Nat.lt_succ_of_lt (h.returned_lt r hr)⟩
      finished := forall_mem_cons.2 ⟨hnew, h.finished⟩
      voice := fun m st' hst' hrun => hvoice.trans (h.voice m st' hst' hrun)
      direct := fun m st' hst' _ hrun =>
        absurd ((hfree.overtaken m st' hst').symm.trans hrun) Bool.noConfusion
      native := fun m st' hst' hnative => by
        obtain ⟨-, hunmoved, hunsent⟩ := h.native m st' hst' hnative
        refine ⟨fun hm => ?_, hunmoved, hunsent⟩
        exact Nat.ne_of_lt (h.started m st' hst') (hsession m hm).1
      stages := h.stages
      discarding := h.discarding
      audio := haudio
      oneCaptures := fun m k hm hk => (hcaptures hm).trans (hcaptures hk).symm
      failed := by
        refine forall_mem_cons.2 ⟨fun hok => ⟨fun hm => ?_, fun t => ⟨fun ht => ?_,
          fun ht => ?_⟩⟩, fun r hr hok => ⟨fun hm => ?_, (h.failed r hr hok).2⟩⟩
        · exact Bool.noConfusion (hok.symm.trans (hsession _ hm).2)
        · exact Nat.lt_irrefl _ (h.announced_lt _ t ht)
        · exact Nat.lt_irrefl _ (h.moved_lt _ t ht)
        · exact Nat.ne_of_lt (h.returned_lt r hr) (hsession _ hm).1
      overtaken := forall_mem_cons.2 ⟨nofun, fun r hr _ hm =>
        Nat.ne_of_lt (h.returned_lt r hr) (hsession _ hm).1⟩ }

theorem kept_begin (h : Kept s) (hfree : Free s) {announce : Option Target} {voice : Nat}
    (hvoice : s.app.voiceEngine = some voice) :
    Kept (s.begin args captures audio announce voice) := by
  have hnone {m : Nat} (hm : s.app.session? = some m) : False := by
    rw [hfree.session] at hm
    cases hm
  have hsilent {m : Nat} (hm : s.app.audioStreamEngine = some m) : False := by
    rw [hfree.audio] at hm
    cases hm
  have haudio : ∀ m, (if args.shareAudio && audio then some s.sessions
      else s.app.audioStreamEngine) = some m → some s.sessions = some m := by
    intro m hm
    split at hm
    · exact hm
    · exact (hsilent hm).elim
  rw [Run.begin]
  dsimp only
  split
  · next hnative =>
    exact kept_launch h hfree rfl hvoice (fun m hm => (hsilent hm).elim)
      (.inl ⟨hnative, hfree.session, rfl⟩)
  · next hnative =>
    split
    · exact kept_at_once h hfree rfl (fun m hm => (hsilent hm).elim) fun m hm => (hnone hm).elim
    · cases announce with
      | none =>
        exact kept_at_once h hfree rfl haudio fun m hm => ⟨(Option.some.inj hm).symm, rfl⟩
      | some t =>
        exact kept_launch h hfree rfl hvoice haudio
          (.inr ⟨Bool.eq_false_iff.2 hnative, rfl, rfl⟩)

end Begin

section Commands

variable {s : Run} {n : Nat} {st : Start}

theorem ofStart_induct {P : Run → Prop} {stage : Stage} {f : Start → Run} (hs : P s)
    (hf : ∀ st, s.starts.get? n = some st → st.stage = stage → P (f st)) :
    P (s.ofStart n stage f) := by
  rw [Run.ofStart]
  split
  · next st hget =>
    split
    · next hstage => exact hf st hget hstage
    · exact hs
  · exact hs

theorem Kept.native_of_storing (h : Kept s) (hget : s.starts.get? n = some st)
    (hstage : st.stage = .portal ∨ st.stage = .storing) : st.native = true := by
  by_contra hnative
  rcases h.stages n st hget (Bool.eq_false_iff.2 hnative) with heq | heq <;>
    rw [heq] at hstage <;> rcases hstage with hstage | hstage <;> cases hstage

theorem Kept.captures_of_storing (h : Kept s) (hget : s.starts.get? n = some st)
    (hstage : st.stage = .storing) : s.Captures n := by
  refine .inr ⟨st, hget, h.native_of_storing hget (.inr hstage), fun hportal => ?_⟩
  rw [hstage] at hportal
  cases hportal

theorem kept_start (h : Kept s) {args : StartScreenShareArgs} {captures audio : Bool}
    (hcareful : Careful s (.start args captures audio)) : Kept (s.start args captures audio) := by
  rw [Run.start]
  split
  · next announce voice hchecks hvoice =>
    exact kept_begin h (h.free hcareful hchecks) hvoice
  · exact h

theorem kept_portal (h : Kept s) (hget : s.starts.get? n = some st) (hstage : st.stage = .portal)
    {ok : Bool} (hcareful : Careful s (.portal n ok)) : Kept (s.portal n st ok) := by
  have hnative := h.native_of_storing hget (.inl hstage)
  have hdirect : st.native ≠ false := by rw [hnative]; decide
  obtain ⟨hnot, hunmoved, hunsent⟩ := h.native n st hget hnative
  have hearly : st.stage ≠ .storing := by rw [hstage]; decide
  rw [Run.portal]
  split
  · next hok =>
    refine @kept_restage s n st h hget _ (fun heq => ?_) (fun hnat => absurd hnat hdirect)
      (fun _ => .inr (hcareful hok)) [] (fun a ha => absurd ha not_mem_nil) (.inr hearly)
    split at heq <;> cases heq
  · exact @kept_finish s n st h hget s.app _ false [] (fun a ha => absurd ha not_mem_nil) rfl
      (fun _ _ => Iff.rfl) h.audio (fun _ => ⟨hnot, fun t => ⟨hunsent hearly t, hunmoved t⟩⟩)
      (fun _ => hnot) fun hn => absurd hn hnot

theorem kept_announce (h : Kept s) (hget : s.starts.get? n = some st)
    (hstage : st.stage = .announcing) {ok : Bool} (hcareful : Careful s (.announced n ok)) :
    Kept (s.announce n st ok) := by
  have hearly : st.stage ≠ .storing := by rw [hstage]; decide
  have hportal : st.stage ≠ .portal := by rw [hstage]; decide
  have hsent : ∀ a ∈ st.announce.toList.map (n, ·), a.1 = n := by
    intro a ha
    obtain ⟨t, -, rfl⟩ := mem_map.1 ha
    rfl
  rw [Run.announce.eq_def]
  split
  · next hnative =>
    exact @kept_restage s n st h hget .storing nofun
      (fun hnat => absurd (hnative.symm.trans hnat) (by decide)) (fun _ => .inl hportal) _
      (fun a ha => ⟨hsent a ha, rfl⟩) (.inl rfl)
  · next hnative =>
    exact kept_finish h hget hsent rfl (fun _ _ => Iff.rfl) h.audio nofun
      (hcareful rfl st hget hnative) .inl
  · next hnative =>
    obtain ⟨hnot, hunmoved, hunsent⟩ := h.native n st hget hnative
    exact @kept_finish s n st h hget s.app _ false [] (fun a ha => absurd ha not_mem_nil) rfl
      (fun _ _ => Iff.rfl) h.audio (fun _ => ⟨hnot, fun t => ⟨hunsent hearly t, hunmoved t⟩⟩)
      (fun _ => hnot) fun hn => absurd hn hnot
  · next hnative =>
    exact @kept_restage s n st h hget _ (fun _ => hnative) (fun _ => .inr rfl)
      (fun _ => .inl hportal) [] (fun a ha => absurd ha not_mem_nil) (.inr hearly)

theorem kept_store (h : Kept s) (hget : s.starts.get? n = some st) (hstage : st.stage = .storing)
    {audio : Bool} (hcareful : Careful s (.stored n audio)) : Kept (s.store n st audio) := by
  have hown := h.captures_of_storing hget hstage
  refine @kept_finish s n st h hget _ _ true [] (fun a ha => absurd ha not_mem_nil) rfl
    (fun m hne => ⟨fun hm => ?_, fun hm => ?_⟩) (fun m hm => ?_) nofun (fun hover => ?_)
    fun _ => hown
  · exact absurd (Option.some.inj hm).symm hne
  · exact absurd (h.oneCaptures m n (.inl hm) hown) hne
  · dsimp only at hm
    split at hm
    · exact hm
    · exact congrArg some (h.oneCaptures n m hown (.inl (h.audio m hm)))
  · exact absurd (hover.symm.trans (hcareful st hget)) (by decide)

theorem kept_discard (h : Kept s) (hget : s.starts.get? n = some st)
    (hcareful : Careful s (.discard n)) : Kept (s.discard n st) := by
  rw [Run.discard]
  dsimp only
  split
  · next hown =>
    refine @kept_finish s n st h hget _ _ false [] (fun a ha => absurd ha not_mem_nil) rfl
      (fun m hne => ⟨nofun, fun hm => ?_⟩) nofun (fun _ => ⟨nofun, hcareful⟩) (fun _ => nofun)
      nofun
    exact absurd (Option.some.inj (hm.symm.trans hown)) hne
  · next hnot =>
    exact @kept_finish s n st h hget s.app _ false [] (fun a ha => absurd ha not_mem_nil) rfl
      (fun _ _ => Iff.rfl) h.audio (fun _ => ⟨hnot, hcareful⟩) (fun _ => hnot)
      fun hn => absurd hn hnot

theorem overtake_cases {p : Start → Bool} {m : Nat} {st' : Start}
    (h : (s.overtake p).get? m = some st') : ∃ st, s.starts.get? m = some st ∧
      st' = { st with overtaken := st.overtaken || p st } := by
  rw [Run.overtake, Assoc.get?_mapValues, Option.map_eq_some_iff] at h
  obtain ⟨st, hst, rfl⟩ := h
  exact ⟨st, hst, rfl⟩

theorem overtake_none {p : Start → Bool} {m : Nat} (h : s.starts.get? m = none) :
    (s.overtake p).get? m = none := by
  rw [Run.overtake, Assoc.get?_mapValues, h]
  rfl

theorem kept_overtake (h : Kept s) {p : Start → Bool} {app : AppState} {stops : List Target}
    (hsession : app.session? = s.app.session? ∨ app.session? = none)
    (hlost : ∀ st, s.app.voiceEngine = some st.voice → p st = false →
      app.voiceEngine = some st.voice ∧ app.session? = s.app.session?)
    (haudio : ∀ m, app.audioStreamEngine = some m →
      s.app.audioStreamEngine = some m ∧ app.session? = s.app.session?) :
    Kept { s with app, stops, starts := s.overtake p } := by
  have hrun {m : Nat} {st' : Start} (hst' : (s.overtake p).get? m = some st')
      (hover : st'.overtaken = false) :
      app.voiceEngine = some st'.voice ∧ app.session? = s.app.session? := by
    obtain ⟨st, hst, rfl⟩ := overtake_cases hst'
    obtain ⟨hbefore, hp⟩ := Bool.or_eq_false_iff.1 hover
    exact hlost st (h.voice m st hst hbefore) hp
  refine kept_quiet h (fun m st' hst' => ?_) (fun _ => overtake_none) hsession
    (fun _ _ hst' hover => (hrun hst' hover).2) (fun _ _ hst' hover _ => (hrun hst' hover).1)
    haudio (fun _ _ ht => .inl ht) (fun _ _ ht => .inl ht) rfl rfl
  obtain ⟨st, hst, rfl⟩ := overtake_cases hst'
  exact ⟨st, hst, rfl, rfl, rfl, fun hover => (Bool.or_eq_false_iff.1 hover).1⟩

theorem kept_still (h : Kept s) {app : AppState} {frameSink : Option Nat}
    {moves announced : List (Nat × Target)} {stops : List Target} {voices : Nat}
    (hsession : app.session? = s.app.session?)
    (hvoice : ∀ v, s.app.voiceEngine = some v → app.voiceEngine = some v)
    (haudio : app.audioStreamEngine = s.app.audioStreamEngine)
    (hmoves : ∀ m t, (m, t) ∈ moves → (m, t) ∈ s.moves ∨ s.app.session? = some m)
    (hannounced : ∀ m t, (m, t) ∈ announced → (m, t) ∈ s.announced ∨ (m, t) ∈ s.moves) :
    Kept { s with app, frameSink, moves, announced, stops, voices } :=
  kept_quiet h (fun _ st' hst' => ⟨st', hst', rfl, rfl, rfl, id⟩) (fun _ hm => hm)
    (.inl hsession) (fun _ _ _ _ => hsession) (fun _ _ _ _ hv => hvoice _ hv)
    (fun _ hm => ⟨haudio ▸ hm, hsession⟩) hmoves hannounced rfl rfl

theorem kept_stop (h : Kept s) {fallback : Option Target} : Kept (s.stop fallback) :=
  kept_overtake h (.inr rfl) (fun _ _ => nofun) nofun

theorem kept_endVoice (h : Kept s) : Kept s.endVoice := by
  refine kept_overtake h (.inl rfl) (fun st hvoice hp => ?_) fun m hm => ⟨hm, rfl⟩
  exact absurd hvoice (of_decide_eq_false hp)

theorem kept_join (h : Kept s) {t : Target} {ok : Bool} : Kept (s.join t ok) := by
  rw [Run.join]
  dsimp only
  split
  · exact h
  · split
    · exact kept_still (kept_endVoice h) rfl nofun rfl (fun m t ht => .inl ht)
        fun m t ht => .inl ht
    · exact kept_endVoice h

theorem kept_callEnd (h : Kept s) : Kept s.callEnd := by
  rw [Run.callEnd]
  split
  · refine kept_overtake h (.inr rfl) (fun st hvoice hp => ?_) nofun
    exact absurd hvoice (of_decide_eq_false hp)
  · exact kept_still h rfl (fun v hv => hv) rfl (fun m t ht => .inl ht) fun m t ht => .inl ht

theorem kept_move (h : Kept s) {t : Target} : Kept (s.move t) := by
  rw [Run.move]
  split
  · exact h
  · next video hvideo =>
    have hsession : s.app.session? = some video.session := by
      rw [AppState.session?, hvideo]
      rfl
    split
    · refine kept_still h hsession.symm (fun v hv => hv) rfl (fun m u hu => ?_)
        fun m u hu => .inl hu
      split at hu
      · rcases mem_cons.1 hu with heq | hu
        · cases heq
          exact .inr hsession
        · exact .inl hu
      · exact .inl hu
    · exact h

/-! ## A careful step -/

theorem kept_step (h : Kept s) {a : Action} (hcareful : Careful s a) : Kept (s.step a) := by
  have hmoves : ∀ m t, (m, t) ∈ s.moves → (m, t) ∈ s.moves ∨ s.app.session? = some m :=
    fun m t ht => .inl ht
  have hannounced : ∀ m t, (m, t) ∈ s.announced → (m, t) ∈ s.announced ∨ (m, t) ∈ s.moves :=
    fun m t ht => .inl ht
  cases a with
  | start args captures audio => exact kept_start h hcareful
  | portal n ok =>
    exact ofStart_induct h fun st hget hstage => kept_portal h hget hstage hcareful
  | announced n ok =>
    exact ofStart_induct h fun st hget hstage => kept_announce h hget hstage hcareful
  | stored n audio =>
    exact ofStart_induct h fun st hget hstage => kept_store h hget hstage hcareful
  | discard n => exact ofStart_induct h fun st hget _ => kept_discard h hget hcareful
  | stop fallback => exact kept_stop h
  | stopSent t =>
    rw [Run.step]
    split
    · exact kept_still h rfl (fun v hv => hv) rfl hmoves fun m u hu =>
        .inl (mem_of_mem_filter hu)
    · exact h
  | dropped n =>
    rw [Run.step]
    split
    · exact kept_still h rfl (fun v hv => hv) rfl hmoves hannounced
    · exact h
  | move t => exact kept_move h
  | moveSent n t ok =>
    rw [Run.step]
    split
    · next hmem =>
      refine kept_still h rfl (fun v hv => hv) rfl (fun m u hu => .inl (mem_of_mem_erase hu))
        fun m u hu => ?_
      split at hu
      · rcases mem_cons.1 hu with heq | hu
        · cases heq
          exact .inr hmem
        · exact .inl hu
      · exact .inl hu
    · exact h
  | join t ok => exact kept_join h
  | leave => exact kept_endVoice h
  | callEnd => exact kept_callEnd h
  | callConnect =>
    rw [Run.step]
    split
    · exact kept_still h rfl (fun v hv => hv) rfl hmoves hannounced
    · exact h
  | callEngine =>
    rw [Run.step]
    split
    · next hidle =>
      -- There is no voice session that a start could have.
      have hnone := Option.isNone_iff_eq_none.1 (Bool.and_eq_true_iff.1 hidle).2
      refine kept_still h rfl (fun v hv => ?_) rfl hmoves hannounced
      rw [hnone] at hv
      cases hv
    · exact h
  | others uid communities => exact kept_still h rfl (fun v hv => hv) rfl hmoves hannounced

end Commands

/-! ## Where every step is careful -/

section Careful

variable {s : Run}

theorem start_refused (h : Kept s) {args : StartScreenShareArgs} {captures audio : Bool}
    (hcareful : Careful s (.start args captures audio)) {n : Nat} (hlive : s.Live n) :
    s.step (.start args captures audio) = s := by
  rw [Run.step, Run.start]
  split
  · next announce voice hchecks hvoice =>
    have hfree := h.free hcareful hchecks
    rcases hlive with hsession | ⟨st, hst, hover⟩
    · exact absurd (.inl hsession) (hfree.captures n)
    · exact absurd ((hfree.overtaken n st hst).symm.trans hover) (by decide)
  · rfl

theorem Untouched.refl (s : Run) (m : Nat) : Untouched s s m := ⟨fun _ => rfl, id, id⟩

theorem untouched_of_app {s' : Run} {m n : Nat} (hne : m ≠ n) (happ : s'.app = s.app)
    (hsink : s'.frameSink = s.frameSink ∨ s'.frameSink = s.clearFrameSinkIf n) :
    Untouched s s' m := by
  refine ⟨fun _ => congrArg _ happ, fun hm => (congrArg _ happ).trans hm, fun hm => ?_⟩
  rcases hsink with hsink | hsink
  · exact hsink.trans hm
  · refine hsink.trans ((if_neg fun hn => ?_).trans hm)
    exact hne (Option.some.inj (hm.symm.trans hn))

/-- A start's step leaves another session's engine, audio and frame sink. -/
theorem untouched_step (h : Kept s) {a : Action} (hcareful : Careful s a) {m n : Nat}
    (hn : a.session? s = some n) (hne : m ≠ n) (hlive : s.Live m) : Untouched s (s.step a) m := by
  cases a with
  | start args captures audio =>
    rw [start_refused h hcareful hlive]
    exact .refl s m
  | portal k ok =>
    cases hn
    refine ofStart_induct (P := (Untouched s · m)) (.refl s m) fun st _ _ => ?_
    rw [Run.portal]
    split
    · exact untouched_of_app hne rfl (.inl rfl)
    · exact untouched_of_app hne rfl (.inr rfl)
  | announced k ok =>
    cases hn
    refine ofStart_induct (P := (Untouched s · m)) (.refl s m) fun st _ _ => ?_
    rw [Run.announce.eq_def]
    split
    · exact untouched_of_app hne rfl (.inl rfl)
    · exact untouched_of_app hne rfl (.inl rfl)
    · exact untouched_of_app hne rfl (.inr rfl)
    · exact untouched_of_app hne rfl (.inl rfl)
  | stored k audio =>
    cases hn
    refine ofStart_induct (P := (Untouched s · m)) (.refl s m) fun st hget hstage => ?_
    -- Its engine captures, so no other one is stored.
    have hother (hm : s.app.session? = some m) : False :=
      hne (h.oneCaptures m n (.inl hm) (h.captures_of_storing hget hstage))
    exact ⟨fun hm => (hother hm).elim, fun hm => (hother (h.audio m hm)).elim, id⟩
  | discard k =>
    cases hn
    refine ofStart_induct (P := (Untouched s · m)) (.refl s m) fun st _ _ => ?_
    rw [Run.discard]
    dsimp only
    split
    · next hown =>
      have hother (hm : s.app.session? = some m) : False :=
        hne (Option.some.inj (hm.symm.trans hown))
      exact ⟨fun hm => (hother hm).elim, fun hm => (hother (h.audio m hm)).elim, id⟩
    · exact untouched_of_app hne rfl (.inl rfl)
  | _ => cases hn

theorem Kept.sound (h : Kept s) : Sound Careful s where
  oneCaptures := h.oneCaptures
  refused _ _ _ hcareful hlive := hlive.elim fun _ => start_refused h hcareful
  failed r hr hok := by
    obtain ⟨hnot, hunsent⟩ := h.failed r hr hok
    refine ⟨?_, hunsent⟩
    rintro (hsession | ⟨st, hst, -⟩)
    · exact hnot hsession
    · exact absurd ((h.finished r hr).symm.trans hst) nofun
  untouched _ _ hn hcareful _ hne hlive := untouched_step h hcareful hn hne hlive
  overtaken r hr hover := by
    rintro (hsession | ⟨st, hst, -⟩)
    · exact h.overtaken r hr hover hsession
    · exact absurd ((h.finished r hr).symm.trans hst) nofun

theorem kept_init {uid : Int} : Kept { app := { uid } } where
  started _ _ := nofun
  session_lt _ := nofun
  moved_lt _ _ := nofun
  announced_lt _ _ := nofun
  returned_lt _ := nofun
  finished _ := nofun
  voice _ _ := nofun
  direct _ _ := nofun
  native _ _ := nofun
  discarding _ _ := nofun
  stages _ _ := nofun
  audio _ := nofun
  oneCaptures m _ hm := by
    rcases hm with hm | ⟨st, hst, -⟩
    · exact nomatch hm
    · exact nomatch hst
  failed _ := nofun
  overtaken _ := nofun

/-- **No share goes live that should not**, where every step is careful: a start is refused while
    another starts or is live, one engine captures at most, a failed start leaves nothing and
    touches no other session, and an overtaken one is not live. -/
theorem screen_shares_sound (h : (shareSystem.given Careful).Reachable s) : Sound Careful s := by
  have hkept : Kept s := by
    refine System.reachable_invariant ?_ ?_ h
    · rintro s ⟨uid, rfl⟩
      exact kept_init
    · rintro s a s' hkept ⟨rfl, hcareful⟩
      exact kept_step hkept hcareful
  exact hkept.sound

end Careful

/-- A client that is in a voice channel. -/
def inVoice : List Action := [.others 7 [("community", true)], .join ("community", "general") true]

/-- It shares its screen natively, in that channel. -/
def nativeArgs : StartScreenShareArgs := ⟨some "community", some "general", true, true⟩

def freshRun : Run := { app := { uid := 7 } }

theorem init_freshRun : shareSystem.init freshRun := ⟨7, rfl⟩

/-- A native share that goes live. -/
def liveActions : List Action :=
  inVoice ++ [.start nativeArgs true true, .portal 0 true, .announced 0 true, .stored 0 true]

theorem meets_liveActions : System.Meets Run.step Careful freshRun liveActions := by
  refine ⟨trivial, trivial, fun _ _ _ => nofun, fun _ => ?_, fun _ st hst hdirect => ?_,
    fun st hst => ?_, trivial⟩
  · rintro m (hm | ⟨st, hst, -, hstage⟩)
    · cases hm
    · replace hst := Assoc.get?_insert.symm.trans hst
      split at hst
      · exact hstage (Option.some.inj hst ▸ rfl)
      · cases hst
  · cases (Option.some.inj hst)
    cases hdirect
  · exact (Option.some.inj hst) ▸ rfl

theorem screen_shares_sound_live :
    Sound Careful (liveActions.foldl Run.step freshRun) ∧
      (liveActions.foldl Run.step freshRun).app.session? = some 0 :=
  ⟨screen_shares_sound (.foldl_given (fun _ _ => rfl) (.init init_freshRun) meets_liveActions),
    by decide +kernel⟩

/-- A native share is stopped while its portal dialog is up. -/
def overtakenActions : List Action :=
  inVoice ++ [.start nativeArgs true true, .stop none, .portal 0 true, .announced 0 true,
    .stored 0 true]

/-- Once the dialog is answered, the stopped share is live. -/
theorem not_screen_shares_sound :
    ¬∀ s, shareSystem.Reachable s → Sound (fun _ _ => True) s := by
  intro h
  have hreach : shareSystem.Reachable (overtakenActions.foldl Run.step freshRun) :=
    System.Reachable.foldl (fun _ _ => rfl) _ (.init init_freshRun)
  exact (h _ hreach).overtaken ⟨0, true, true⟩ (by decide +kernel) rfl
    (.inl (by decide +kernel))

end Decibell.ScreenShare
