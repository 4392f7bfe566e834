import Decibell.Lib.Mailbox
import Decibell.Lib.Run

/-!
# Mute and deafen

Whether the microphone is live is kept three times: by the voice engine, by its audio pipeline,
which is told by control messages, and by the application for when there is no engine. Each
remembers, under a rule of its own, what the mute was before deafening.
-/

namespace Decibell

open Lib

/-- The audio pipeline's control messages about the microphone. -/
inductive ControlMessage
  | setMute (muted : Bool)
  | setDeafen (deafened : Bool)

/-- The microphone as the audio pipeline has it. -/
structure Pipeline where
  muted : Bool := false
  deafened : Bool := false
  wasMutedBeforeDeafen : Bool := false

namespace Pipeline

def handle (p : Pipeline) : ControlMessage → Pipeline
  | .setMute m =>
    if ! p.deafened then { p with muted := m }
    -- While deafened, track what the user wants.
    else { p with wasMutedBeforeDeafen := m }
  | .setDeafen d =>
    if d && ! p.deafened then
      { muted := true, deafened := true, wasMutedBeforeDeafen := p.muted }
    else if ! d && p.deafened then
      { p with deafened := false, muted := p.wasMutedBeforeDeafen }
    else p

end Pipeline

/-- A voice engine, its pipeline at the end of the control channel. -/
structure VoiceEngine where
  isMuted : Bool := false
  isDeafened : Bool := false
  wasMutedBeforeDeafen : Bool := false
  control : Mailbox ControlMessage Pipeline := ⟨[], {}⟩

namespace VoiceEngine

def setMute (e : VoiceEngine) (muted : Bool) : VoiceEngine :=
  { e with isMuted := muted, control := e.control.send (.setMute muted) }

def setDeafen (e : VoiceEngine) (deafened : Bool) : VoiceEngine :=
  let e := { e with isDeafened := deafened, control := e.control.send (.setDeafen deafened) }
  if deafened then { e with wasMutedBeforeDeafen := e.isMuted, isMuted := true }
  else { e with isMuted := e.wasMutedBeforeDeafen }

def setMutedBeforeDeafen (e : VoiceEngine) (v : Bool) : VoiceEngine :=
  { e with wasMutedBeforeDeafen := v }

/-- The pipeline once it has drained its messages. -/
def settled (e : VoiceEngine) : Pipeline := e.control.settled Pipeline.handle

end VoiceEngine

/-- What of the application's state is about the microphone, with the mute and deafen last emitted,
    and last told to the communities. -/
structure AppState where
  voiceMuted : Bool := false
  voiceDeafened : Bool := false
  voiceMutedBeforeDeafen : Bool := false
  voiceEngine : Option VoiceEngine := none
  connectedVoiceChannel : Option String := none
  activeCall : Option String := none
  shown : Bool × Bool := (false, false)
  told : Bool × Bool := (false, false)

/-- A join is refused, or its packet is not sent, or no session starts, or all is well. -/
inductive JoinOutcome
  | refused
  | unsent
  | unstarted
  | joined

namespace AppState

/-- A new engine with the mute and deafen that were saved. -/
def restore (s : AppState) : VoiceEngine :=
  let engine : VoiceEngine := {}
  let engine :=
    if s.voiceDeafened then
      let engine := if s.voiceMutedBeforeDeafen then engine.setMute true else engine
      engine.setDeafen true
    else if s.voiceMuted then engine.setMute true
    else engine
  engine.setMutedBeforeDeafen s.voiceMutedBeforeDeafen

/-- Records mute and deafen, and announces them. -/
def announce (s : AppState) (isMuted isDeafened mbd : Bool) : AppState :=
  { s with
    voiceMutedBeforeDeafen := mbd
    voiceMuted := isMuted
    voiceDeafened := isDeafened
    told := (isMuted, isDeafened)
    shown := (isMuted, isDeafened) }

def setVoiceMute (s : AppState) (muted : Bool) : AppState :=
  match s.voiceEngine with
  | some e =>
    let e := e.setMute muted
    { s with voiceEngine := some e }.announce e.isMuted e.isDeafened e.wasMutedBeforeDeafen
  | none => s.announce muted s.voiceDeafened s.voiceMutedBeforeDeafen

def setVoiceDeafen (s : AppState) (deafened : Bool) : AppState :=
  match s.voiceEngine with
  | some e =>
    let e := e.setDeafen deafened
    { s with voiceEngine := some e }.announce e.isMuted e.isDeafened e.wasMutedBeforeDeafen
  | none =>
    if deafened then s.announce true true s.voiceMuted
    else s.announce s.voiceMutedBeforeDeafen false s.voiceMutedBeforeDeafen

/-- Joins a channel, leaving a running engine's; `outcome` is what it depends on. -/
def joinVoiceChannel (s : AppState) (channelId : String) (outcome : JoinOutcome) : AppState :=
  if s.activeCall.isSome then s
  else
    let switching := s.voiceEngine.isSome
    let isMuted := s.voiceMuted || s.voiceDeafened
    let isDeafened := s.voiceDeafened
    let left := { s with
      voiceEngine := none
      connectedVoiceChannel := none
      told :=
        if isMuted || isDeafened then (isMuted, isDeafened)
        else if switching then (false, false) else s.told }
    match outcome with
    | .refused => s
    | .unsent => left
    | .unstarted => { left with told := (false, false) }
    | .joined =>
      { left with
        voiceEngine := some s.restore
        connectedVoiceChannel := some channelId
        shown := (isMuted, isDeafened) }

/-- The engine's mute and deafen, or those saved without one. -/
def save (s : AppState) : AppState :=
  match s.voiceEngine with
  | some e => { s with
      voiceMuted := e.isMuted
      voiceDeafened := e.isDeafened
      voiceMutedBeforeDeafen := e.wasMutedBeforeDeafen }
  | none => s

def leaveVoiceChannel (s : AppState) : AppState :=
  let s := s.save
  { s with
    voiceEngine := none
    connectedVoiceChannel := none
    told := (false, false)
    shown := (s.voiceMuted, s.voiceDeafened) }

def callConnect (s : AppState) (callId : String) : AppState :=
  if s.activeCall.isSome then s
  else if s.voiceEngine.isSome then s
  else { s with activeCall := some callId }

/-- The engine of a connected call, unless it is no longer ours. -/
def callConnected (s : AppState) (callId : String) : AppState :=
  if s.activeCall ≠ some callId || s.voiceEngine.isSome then s
  else
    let engine := s.restore
    { s with voiceEngine := some engine, shown := (engine.isMuted, engine.isDeafened) }

/-- A call that could not connect. -/
def callFailed (s : AppState) (callId : String) : AppState :=
  if s.activeCall = some callId then { s with activeCall := none } else s

def callEnd (s : AppState) : AppState :=
  let hadCall := s.activeCall.isSome
  let s := { s with activeCall := none }
  let s := if hadCall && s.connectedVoiceChannel.isNone then { s.save with voiceEngine := none }
    else s
  if hadCall then { s with shown := (s.voiceMuted, s.voiceDeafened) } else s

/-- The pipeline handles its next control message. -/
def drain (s : AppState) : AppState :=
  { s with voiceEngine := s.voiceEngine.map fun e =>
      { e with control := e.control.deliver Pipeline.handle } }

end AppState

/-- A command under the lock, a call that connects or fails, or the pipeline's turn. -/
inductive MicAct
  | setVoiceMute (muted : Bool)
  | setVoiceDeafen (deafened : Bool)
  | joinVoiceChannel (channelId : String) (outcome : JoinOutcome)
  | leaveVoiceChannel
  | callConnect (callId : String)
  | callConnected (callId : String)
  | callFailed (callId : String)
  | callEnd
  | drain

namespace AppState

def perform (s : AppState) : MicAct → AppState
  | .setVoiceMute muted => s.setVoiceMute muted
  | .setVoiceDeafen deafened => s.setVoiceDeafen deafened
  | .joinVoiceChannel channelId outcome => s.joinVoiceChannel channelId outcome
  | .leaveVoiceChannel => s.leaveVoiceChannel
  | .callConnect callId => s.callConnect callId
  | .callConnected callId => s.callConnected callId
  | .callFailed callId => s.callFailed callId
  | .callEnd => s.callEnd
  | .drain => s.drain

/-- The runs of the application. -/
def micSystem : System AppState MicAct where
  init s := s = {}
  step s a s' := s' = s.perform a

/-- The state after hanging up, leaving, and joining again. -/
def rejoined (s : AppState) (channelId : String) : AppState :=
  s.callEnd.leaveVoiceChannel.joinVoiceChannel channelId .joined

/-- The microphone is used as it is shown. -/
structure MicAsShown (s : AppState) : Prop where
  /-- Its messages drained, the pipeline agrees with the engine. -/
  used : ∀ e, s.voiceEngine = some e →
    e.settled.muted = e.isMuted ∧ e.settled.deafened = e.isDeafened
  shown : ∀ e, s.voiceEngine = some e → s.shown = (e.isMuted, e.isDeafened)
  /-- The community of a channel was told what the engine has. -/
  told : ∀ e, s.voiceEngine = some e → s.connectedVoiceChannel.isSome →
    s.told = (e.isMuted, e.isDeafened)
  /-- Leaving and joining again changes neither. -/
  rejoins : ∀ channelId, (s.rejoined channelId).shown = s.shown

/-- A command does not unmute while deafened; and undeafening, engine and pipeline restore one mute:
    that before deafening, or the present one if not deafened. -/
def Restores (s : AppState) : MicAct → Prop
  | .setVoiceMute muted => muted = true ∨ s.voiceDeafened = false
  | .setVoiceDeafen false => ∀ e, s.voiceEngine = some e → e.wasMutedBeforeDeafen =
      if e.settled.deafened then e.settled.wasMutedBeforeDeafen else e.settled.muted
  | _ => True

end AppState

/-! ## The two machines -/

namespace VoiceEngine

variable (e : VoiceEngine)

@[simp] theorem settled_setMute (b : Bool) :
    (e.setMute b).settled = e.settled.handle (.setMute b) :=
  Mailbox.settled_send _ _ _

@[simp] theorem settled_setDeafen (b : Bool) :
    (e.setDeafen b).settled = e.settled.handle (.setDeafen b) := by
  cases b <;> exact Mailbox.settled_send _ _ _

@[simp] theorem isMuted_setMute (b : Bool) : (e.setMute b).isMuted = b := rfl

@[simp] theorem isMuted_setDeafen (b : Bool) :
    (e.setDeafen b).isMuted = (b || e.wasMutedBeforeDeafen) := by
  cases b <;> rfl

@[simp] theorem isDeafened_setDeafen (b : Bool) : (e.setDeafen b).isDeafened = b := by
  cases b <;> rfl

/-- Engine and pipeline agree, its messages drained. -/
def Agrees : Prop := e.settled.muted = e.isMuted ∧ e.settled.deafened = e.isDeafened

variable {e}

/-- Muting keeps the two in agreement; unmuting while deafened does not. -/
theorem agrees_setMute (h : e.Agrees) (hdeaf : e.isDeafened = true → e.isMuted = true) (b : Bool) :
    (e.setMute b).Agrees ↔ b = true ∨ e.isDeafened = false := by
  obtain ⟨hm, hd⟩ := h
  have hd' : (e.setMute b).isDeafened = e.isDeafened := rfl
  rw [Agrees, settled_setMute, isMuted_setMute, hd', Pipeline.handle, hd]
  cases hdf : e.isDeafened
  · simp
  · have hmuted := hdeaf hdf
    cases b <;> simp [hm, hmuted]

theorem agrees_deafen (h : e.Agrees) (hdeaf : e.isDeafened = true → e.isMuted = true) :
    (e.setDeafen true).Agrees := by
  obtain ⟨hm, hd⟩ := h
  rw [Agrees, settled_setDeafen, isMuted_setDeafen, isDeafened_setDeafen, Pipeline.handle, hd]
  cases hdf : e.isDeafened
  · simp
  · simp [hm, hd, hdf, hdeaf hdf]

theorem agrees_undeafen (h : e.Agrees) : (e.setDeafen false).Agrees ↔ e.wasMutedBeforeDeafen =
    if e.settled.deafened then e.settled.wasMutedBeforeDeafen else e.settled.muted := by
  obtain ⟨-, hd⟩ := h
  rw [Agrees, settled_setDeafen, isMuted_setDeafen, isDeafened_setDeafen, Pipeline.handle]
  cases hdf : e.settled.deafened <;> simp [hdf, eq_comm]

end VoiceEngine

namespace AppState

variable {s : AppState}

/-- A restored engine is deafened as saved, and muted if saved so or deafened. -/
theorem restore_spec (s : AppState) :
    s.restore.isMuted = (s.voiceMuted || s.voiceDeafened) ∧
      s.restore.isDeafened = s.voiceDeafened ∧
      s.restore.wasMutedBeforeDeafen = s.voiceMutedBeforeDeafen ∧ s.restore.Agrees := by
  unfold restore
  cases s.voiceDeafened <;> cases s.voiceMuted <;> cases s.voiceMutedBeforeDeafen <;>
    exact ⟨rfl, rfl, rfl, rfl, rfl⟩

/-- What holds in runs whose commands meet the condition. -/
structure Good (s : AppState) : Prop where
  /-- Deafening mutes. -/
  deaf : s.voiceDeafened = true → s.voiceMuted = true
  shown : s.shown = (s.voiceMuted, s.voiceDeafened)
  told : s.told = (false, false) ∨ s.told = s.shown
  /-- A channel has an engine, and its community knows. -/
  channel : s.connectedVoiceChannel.isSome → s.voiceEngine.isSome ∧ s.told = s.shown
  engine : ∀ e, s.voiceEngine = some e → e.isMuted = s.voiceMuted ∧
    e.isDeafened = s.voiceDeafened ∧ e.wasMutedBeforeDeafen = s.voiceMutedBeforeDeafen ∧ e.Agrees

theorem good_init : Good {} where
  deaf := nofun
  shown := rfl
  told := .inl rfl
  channel := nofun
  engine := nofun

theorem save_eq (h : s.Good) : s.save = s := by
  unfold save
  split
  · rename_i e he
    obtain ⟨hm, hd, hmbd, -⟩ := h.engine e he
    rw [hm, hd, hmbd]
  · rfl

theorem shown_rejoined (s : AppState) (channelId : String) :
    (s.rejoined channelId).shown =
      (s.save.voiceMuted || s.save.voiceDeafened, s.save.voiceDeafened) := by
  have hcall : ∀ s : AppState, s.callEnd.activeCall = none := by
    intro s
    unfold callEnd save
    cases s.activeCall <;> cases s.connectedVoiceChannel <;> cases s.voiceEngine <;> rfl
  have hsave : ∀ s : AppState, s.callEnd.save.voiceMuted = s.save.voiceMuted ∧
      s.callEnd.save.voiceDeafened = s.save.voiceDeafened := by
    intro s
    unfold callEnd save
    cases s.activeCall <;> cases s.connectedVoiceChannel <;> cases s.voiceEngine <;> exact ⟨rfl, rfl⟩
  obtain ⟨hm, hd⟩ := hsave s
  have hleft : (s.callEnd.leaveVoiceChannel).activeCall = none := by
    rw [← hcall s]
    unfold leaveVoiceChannel save
    cases s.callEnd.voiceEngine <;> rfl
  rw [rejoined, joinVoiceChannel, hleft, ← hm, ← hd]
  rfl

theorem Good.micAsShown (h : s.Good) : s.MicAsShown where
  used e he := (h.engine e he).2.2.2
  shown e he := by
    obtain ⟨hm, hd, -⟩ := h.engine e he
    rw [h.shown, hm, hd]
  told e he hc := by
    obtain ⟨hm, hd, -⟩ := h.engine e he
    rw [(h.channel hc).2, h.shown, hm, hd]
  rejoins channelId := by
    rw [shown_rejoined, save_eq h, h.shown]
    cases hd : s.voiceDeafened
    · rw [Bool.or_false]
    · rw [h.deaf hd, Bool.true_or]

/-! ## Commands -/

theorem good_announce {isMuted isDeafened mbd : Bool} (hdeaf : isDeafened = true → isMuted = true)
    (hchannel : s.connectedVoiceChannel.isSome → s.voiceEngine.isSome)
    (hengine : ∀ e, s.voiceEngine = some e → e.isMuted = isMuted ∧ e.isDeafened = isDeafened ∧
      e.wasMutedBeforeDeafen = mbd ∧ e.Agrees) :
    (s.announce isMuted isDeafened mbd).Good where
  deaf := hdeaf
  shown := rfl
  told := .inr rfl
  channel hc := ⟨hchannel hc, rfl⟩
  engine := hengine

theorem good_setVoiceMute (h : s.Good) {muted : Bool} (hr : s.Restores (.setVoiceMute muted)) :
    (s.setVoiceMute muted).Good := by
  have hdeaf : s.voiceDeafened = true → muted = true := by
    intro hd
    rcases hr with hr | hr
    · exact hr
    · exact absurd hd (by rw [hr]; exact Bool.false_ne_true)
  unfold setVoiceMute
  cases he : s.voiceEngine with
  | none =>
    refine good_announce hdeaf (fun hc => (h.channel hc).1) fun e he' => ?_
    rw [he] at he'
    exact nomatch he'
  | some e =>
    obtain ⟨hm, hd, -, hagree⟩ := h.engine e he
    refine good_announce (hd ▸ hdeaf) (fun _ => rfl) ?_
    rintro _ ⟨⟩
    refine ⟨rfl, rfl, rfl, (VoiceEngine.agrees_setMute hagree ?_ muted).2 (hd ▸ hr)⟩
    rw [hm, hd]
    exact h.deaf

theorem good_setVoiceDeafen (h : s.Good) {deafened : Bool}
    (hr : s.Restores (.setVoiceDeafen deafened)) : (s.setVoiceDeafen deafened).Good := by
  have hnone : ∀ {m d mbd : Bool}, s.voiceEngine = none → (d = true → m = true) →
      (s.announce m d mbd).Good := by
    intro m d mbd he hdeaf
    refine good_announce hdeaf (fun hc => (h.channel hc).1) fun e he' => ?_
    rw [he] at he'
    exact nomatch he'
  unfold setVoiceDeafen
  cases he : s.voiceEngine with
  | none =>
    cases deafened
    · exact hnone he nofun
    · exact hnone he fun _ => rfl
  | some e =>
    obtain ⟨hm, hd, -, hagree⟩ := h.engine e he
    have hagree' : (e.setDeafen deafened).Agrees := by
      cases deafened
      · exact (VoiceEngine.agrees_undeafen hagree).2 (hr e he)
      · refine VoiceEngine.agrees_deafen hagree ?_
        rw [hm, hd]
        exact h.deaf
    refine good_announce (fun hd' => ?_) (fun _ => rfl) ?_
    · rw [VoiceEngine.isDeafened_setDeafen] at hd'
      rw [VoiceEngine.isMuted_setDeafen, hd', Bool.true_or]
    · rintro _ ⟨⟩
      exact ⟨rfl, rfl, rfl, hagree'⟩

theorem Good.muted_or (h : s.Good) : (s.voiceMuted || s.voiceDeafened) = s.voiceMuted := by
  cases hd : s.voiceDeafened
  · rw [Bool.or_false]
  · rw [h.deaf hd, Bool.true_or]

theorem Good.restore (h : s.Good) : s.restore.isMuted = s.voiceMuted ∧
    s.restore.isDeafened = s.voiceDeafened ∧
    s.restore.wasMutedBeforeDeafen = s.voiceMutedBeforeDeafen ∧ s.restore.Agrees := by
  rw [← h.muted_or]
  exact restore_spec s

theorem good_joinVoiceChannel (h : s.Good) (channelId : String) (outcome : JoinOutcome) :
    (s.joinVoiceChannel channelId outcome).Good := by
  unfold joinVoiceChannel
  split
  · exact h
  simp only [h.muted_or]
  -- The community is told again when there is something to tell.
  have htold : (if (s.voiceMuted || s.voiceDeafened) = true then (s.voiceMuted, s.voiceDeafened)
      else if s.voiceEngine.isSome = true then (false, false) else s.told) =
        (s.voiceMuted, s.voiceDeafened) := by
    rw [h.muted_or]
    cases hm : s.voiceMuted
    · have hd : s.voiceDeafened = false := by
        rw [← Bool.not_eq_true]
        exact fun hd => Bool.false_ne_true (hm.symm.trans (h.deaf hd))
      rw [if_neg Bool.false_ne_true, hd]
      split
      · rfl
      · rcases h.told with ht | ht
        · exact ht
        · rw [ht, h.shown, hm, hd]
    · rw [if_pos rfl]
  rw [h.muted_or] at htold
  rw [htold]
  cases outcome with
  | refused => exact h
  | unsent => exact ⟨h.deaf, h.shown, .inr h.shown.symm, nofun, nofun⟩
  | unstarted => exact ⟨h.deaf, h.shown, .inl rfl, nofun, nofun⟩
  | joined =>
    refine ⟨h.deaf, rfl, .inr rfl, fun _ => ⟨rfl, rfl⟩, ?_⟩
    rintro _ ⟨⟩
    exact h.restore

theorem good_leaveVoiceChannel (h : s.Good) : s.leaveVoiceChannel.Good := by
  unfold leaveVoiceChannel
  rw [save_eq h]
  exact ⟨h.deaf, rfl, .inl rfl, nofun, nofun⟩

theorem good_callConnect (h : s.Good) (callId : String) : (s.callConnect callId).Good := by
  unfold callConnect
  split
  · exact h
  · split
    · exact h
    · exact ⟨h.deaf, h.shown, h.told, h.channel, h.engine⟩

theorem good_callFailed (h : s.Good) (callId : String) : (s.callFailed callId).Good := by
  unfold callFailed
  split
  · exact ⟨h.deaf, h.shown, h.told, h.channel, h.engine⟩
  · exact h

theorem good_callConnected (h : s.Good) (callId : String) : (s.callConnected callId).Good := by
  unfold callConnected
  split
  · exact h
  · rename_i hours
    obtain ⟨hm, hd, hmbd, hagree⟩ := h.restore
    have hnone : s.voiceEngine.isSome = false := by simp_all
    have hshown : (s.restore.isMuted, s.restore.isDeafened) = s.shown := by rw [hm, hd, h.shown]
    refine ⟨h.deaf, hshown.trans h.shown, h.told.imp id fun ht => ht.trans hshown.symm,
      fun hc => ?_, ?_⟩
    · exact absurd (h.channel hc).1 (by rw [hnone]; exact Bool.false_ne_true)
    · rintro _ ⟨⟩
      exact ⟨hm, hd, hmbd, hagree⟩

theorem good_callEnd (h : s.Good) : s.callEnd.Good := by
  unfold callEnd
  have hcall : Good { s with activeCall := none } := ⟨h.deaf, h.shown, h.told, h.channel, h.engine⟩
  have hsave := save_eq hcall
  simp only [hsave]
  cases s.activeCall with
  | none => exact hcall
  | some id =>
    cases hc : s.connectedVoiceChannel with
    | none => exact ⟨h.deaf, rfl, h.shown ▸ h.told, nofun, nofun⟩
    | some ch =>
      have hch := h.channel (hc ▸ rfl)
      exact ⟨h.deaf, rfl, h.shown ▸ h.told, fun _ => h.shown ▸ hch, h.engine⟩

theorem good_drain (h : s.Good) : s.drain.Good := by
  refine ⟨h.deaf, h.shown, h.told, fun hc => ?_, fun e he => ?_⟩
  · rw [drain, Option.isSome_map]
    exact h.channel hc
  · obtain ⟨e, he', rfl⟩ := Option.map_eq_some_iff.1 he
    obtain ⟨hm, hd, hmbd, hagree⟩ := h.engine e he'
    have hsettled : VoiceEngine.settled { e with control := e.control.deliver Pipeline.handle } =
        e.settled := Mailbox.settled_deliver _ _
    refine ⟨hm, hd, hmbd, ?_⟩
    rw [VoiceEngine.Agrees, hsettled]
    exact hagree

theorem good_perform (h : s.Good) {a : MicAct} (hr : s.Restores a) : (s.perform a).Good := by
  cases a with
  | setVoiceMute muted => exact good_setVoiceMute h hr
  | setVoiceDeafen deafened => exact good_setVoiceDeafen h hr
  | joinVoiceChannel channelId outcome => exact good_joinVoiceChannel h channelId outcome
  | leaveVoiceChannel => exact good_leaveVoiceChannel h
  | callConnect callId => exact good_callConnect h callId
  | callConnected callId => exact good_callConnected h callId
  | callFailed callId => exact good_callFailed h callId
  | callEnd => exact good_callEnd h
  | drain => exact good_drain h

theorem restores_of_micAsShown (h : s.Good) {a : MicAct} (hs : (s.perform a).MicAsShown) :
    s.Restores a := by
  cases a with
  | setVoiceMute muted =>
    rw [Restores]
    by_contra hr
    obtain ⟨hm, hd⟩ := not_or.1 hr
    rw [Bool.not_eq_true] at hm
    rw [Bool.not_eq_false] at hd
    subst hm
    -- Joining again mutes, as deafening does.
    have hafter : (s.setVoiceMute false).shown = (false, true) ∧
        (s.setVoiceMute false).save.voiceDeafened = true := by
      unfold setVoiceMute
      cases he : s.voiceEngine with
      | none =>
        refine ⟨congrArg (Prod.mk false) hd, ?_⟩
        simp only [save, announce, he]
        exact hd
      | some e =>
        have hd' := (h.engine e he).2.1.trans hd
        exact ⟨congrArg (Prod.mk false) hd', hd'⟩
    have hshow := hs.rejoins ""
    rw [shown_rejoined] at hshow
    have hmuted := congrArg Prod.fst (hshow.trans hafter.1)
    simp only [perform, hafter.2, Bool.or_true] at hmuted
    exact nomatch hmuted
  | setVoiceDeafen deafened =>
    cases deafened with
    | true => trivial
    | false =>
      intro e he
      obtain ⟨-, -, -, hagree⟩ := h.engine e he
      have hused := hs.used (e.setDeafen false) (by rw [perform, setVoiceDeafen, he]; rfl)
      exact (VoiceEngine.agrees_undeafen hagree).1 hused
  | _ => trivial

/-! ## Runs -/

theorem good_of_given (h : (micSystem.given Restores).Reachable s) : s.Good := by
  refine System.reachable_invariant (I := Good) ?_ ?_ h
  · rintro _ rfl
    exact good_init
  · rintro s a _ hs ⟨rfl, hr⟩
    exact good_perform hs hr

/-- In a run whose steps meet the condition the microphone is as shown; and still after the next
    step exactly when that does. -/
theorem mic_as_shown (h : (micSystem.given Restores).Reachable s) :
    s.MicAsShown ∧ ∀ a s', micSystem.step s a s' → (s'.MicAsShown ↔ s.Restores a) := by
  have hgood := good_of_given h
  refine ⟨hgood.micAsShown, ?_⟩
  rintro a s' rfl
  exact ⟨restores_of_micAsShown hgood, fun hr => (good_perform hgood hr).micAsShown⟩

/-- A user who joins muted, deafens and undeafens. -/
def deafenedOnce : AppState :=
  (((({} : AppState).setVoiceMute true).joinVoiceChannel "general" .joined).setVoiceDeafen true)
    |>.setVoiceDeafen false

theorem mic_as_shown_deafenedOnce : deafenedOnce.MicAsShown ∧
    (deafenedOnce.setVoiceDeafen true).MicAsShown := by
  have h : (micSystem.given Restores).Reachable deafenedOnce := by
    refine .step (.setVoiceDeafen false) (.step (.setVoiceDeafen true)
      (.step (.joinVoiceChannel "general" .joined) (.step (.setVoiceMute true) (.init rfl)
        ⟨rfl, .inl rfl⟩) ⟨rfl, trivial⟩) ⟨rfl, trivial⟩) ⟨rfl, ?_⟩
    rintro _ ⟨⟩
    decide
  obtain ⟨hshown, hnext⟩ := mic_as_shown h
  exact ⟨hshown, (hnext (.setVoiceDeafen true) _ rfl).2 trivial⟩

/-- A user deafens twice and undeafens: shown muted, and heard. -/
def deafenedTwice : AppState :=
  ((({} : AppState).joinVoiceChannel "general" .joined).setVoiceDeafen true).setVoiceDeafen true
    |>.setVoiceDeafen false

theorem live_while_shown_muted : ¬ ∀ s, micSystem.Reachable s → s.MicAsShown := by
  intro h
  have hr : micSystem.Reachable deafenedTwice :=
    .step (.setVoiceDeafen false) (.step (.setVoiceDeafen true) (.step (.setVoiceDeafen true)
      (.step (.joinVoiceChannel "general" .joined) (.init rfl) rfl) rfl) rfl) rfl
  have hused := (h _ hr).used _ rfl
  exact absurd hused.1 (by decide)

end AppState
end Decibell
