import Decibell.Media.MicState
import Decibell.Media.VoiceGate
import Mathlib.Algebra.Group.Nat.Defs

/-!
# The capture loop

Every 20 ms the audio pipeline takes a frame from the microphone and decides whether to send it. At
the edges of the gate the sound is smoothed: a frame held back from just before it opened is sent
first (the pre-roll), and the three frames after it closed are faded out (the tail).
-/

namespace Decibell

open Lib List

def gateHangFrames : Nat := 10
def gateTailFrames : Nat := 3
/-- Milliseconds between the silent packets of a closed gate. -/
def keepaliveInterval : Nat := 500

/-- How levels, in decibels, are compared. -/
structure LevelOps (F : Type) where
  /-- `a >= b`. -/
  ge : F → F → Bool
  /-- A threshold less the hysteresis of the gate. -/
  subHysteresis : F → F

/-- A frame, by its place in the order of capture. -/
structure CapturedFrame (α : Type) where
  index : Nat
  samples : α

/-- A frame is left as it is, faded in, or part `t` of a fade-out. -/
inductive Fade
  | none
  | fadeIn
  | fadeOut (t : Nat)

/-- A frame does not encode, makes no packet, or is sent. -/
inductive FrameOutcome
  | encodeFailed
  | skipped
  | sent
deriving DecidableEq

/-- A numbered packet: flags, the frame it carries (none for silence), whether it was sent, and the
    instants of its tick and interval check. -/
structure VoicePacket (α : Type) where
  sequence : Nat
  muted : Bool
  deafened : Bool
  silence : Bool
  content : Option (CapturedFrame α × Fade)
  sent : Bool
  tickStart : Nat
  checkedAt : Nat

/-- Whether in a tick the microphone was neither muted nor closed by a hotkey, and the gate open. -/
structure CaptureTick where
  live : Bool
  gateOpen : Bool

/-- What one turn of the loop takes from outside. -/
structure CaptureInput (F α : Type) where
  loopStart : Nat
  /-- The clock of the hotkeys, in milliseconds. -/
  nowMs : Nat
  checkedAt : Nat
  /-- The frame, when a whole one was captured. -/
  frame : Option α
  /-- Its level. -/
  rmsDb : F
  /-- Whether there is no input device. -/
  noMic : Bool
  preRollOutcome : FrameOutcome
  frameOutcome : FrameOutcome

/-- The variables of the loop. -/
structure CaptureLoop (F α : Type) where
  mic : Pipeline := {}
  voiceThresholdDb : F
  hotkeys : GateState := {}
  gateOpen : Bool := false
  gateHangRemaining : Nat := 0
  gateTailRemaining : Nat := 0
  gatePreRoll : Option (CapturedFrame α) := none
  sequence : Nat := 0
  lastVoiceSend : Nat
  ticks : List CaptureTick := []
  packets : List (VoicePacket α) := []

variable {F α : Type} (ops : LevelOps F)

namespace CaptureLoop

/-- The gate and the hang time after a tick. -/
def moveGate (s : CaptureLoop F α) (hotkeyGate : Gate) (rmsDb : F) : Bool × Nat :=
  if s.mic.muted || hotkeyGate = .closed then (false, 0)
  else if hotkeyGate = .open then (true, 0)
  else if ops.ge rmsDb s.voiceThresholdDb then (true, gateHangFrames)
  else if s.gateOpen then
    if ops.ge rmsDb (ops.subHysteresis s.voiceThresholdDb) then (true, gateHangFrames)
    else if 0 < s.gateHangRemaining then (true, s.gateHangRemaining - 1)
    else (false, s.gateHangRemaining)
  else (false, s.gateHangRemaining)

/-- Encodes a frame, or silence, and sends it under the next number. -/
def sendPacket (s : CaptureLoop F α) (i : CaptureInput F α) (muted deafened silence : Bool)
    (content : Option (CapturedFrame α × Fade)) (outcome : FrameOutcome) : CaptureLoop F α :=
  if outcome = .encodeFailed then s
  else
    { s with
      sequence := (s.sequence + 1) % 2 ^ 16
      packets := s.packets ++ [{
        sequence := s.sequence, muted, deafened, silence, content
        sent := outcome = .sent, tickStart := i.loopStart, checkedAt := i.checkedAt }] }

/-- A turn with a frame. -/
def captureFrame (s : CaptureLoop F α) (i : CaptureInput F α) (samples : α) : CaptureLoop F α :=
  let frame : CapturedFrame α := ⟨s.ticks.length, samples⟩
  let hotkeyGate := s.hotkeys.gateAt i.nowMs
  let (gateOpen, gateHangRemaining) := s.moveGate ops hotkeyGate i.rmsDb
  let gateOpened := ! s.gateOpen && gateOpen
  let gateClosed := s.gateOpen && ! gateOpen
  let gateTailRemaining := if gateClosed then gateTailFrames else s.gateTailRemaining
  -- No pre-roll on a push-to-talk press: that frame is from before the key went down.
  let preRollFrame :=
    if gateOpened then if hotkeyGate = .open then none else s.gatePreRoll else none
  let tailIndex :=
    if ! gateOpen && 0 < gateTailRemaining then some (gateTailFrames - gateTailRemaining) else none
  let fade :=
    if gateOpened && preRollFrame.isNone then .fadeIn
    else match tailIndex with
      | some t => .fadeOut t
      | none => .none
  let carriesAudio := gateOpen || tailIndex.isSome
  let shouldSend := carriesAudio || keepaliveInterval ≤ i.checkedAt - s.lastVoiceSend
  let s := { s with
    gateOpen
    gateHangRemaining
    gateTailRemaining := if tailIndex.isSome then gateTailRemaining - 1 else gateTailRemaining
    lastVoiceSend := if shouldSend then i.loopStart else s.lastVoiceSend
    gatePreRoll := if carriesAudio then none else some frame
    ticks := s.ticks ++ [⟨! (s.mic.muted || hotkeyGate = .closed), gateOpen⟩] }
  if shouldSend then
    let s := match preRollFrame with
      | some pr =>
        s.sendPacket i s.mic.muted s.mic.deafened (! gateOpen) (some (pr, .fadeIn)) i.preRollOutcome
      | none => s
    s.sendPacket i s.mic.muted s.mic.deafened (! gateOpen)
      (if carriesAudio then some (frame, fade) else none) i.frameOutcome
  else s

/-- A turn of the loop; without a device it only keeps the connection. -/
def captureTurn (s : CaptureLoop F α) (i : CaptureInput F α) : CaptureLoop F α :=
  match i.frame with
  | some samples => s.captureFrame ops i samples
  | none =>
    if i.noMic && keepaliveInterval ≤ i.checkedAt - s.lastVoiceSend then
      { s with lastVoiceSend := i.loopStart }.sendPacket i true false true none i.frameOutcome
    else s

end CaptureLoop

/-- A turn, a control message, or a hotkey or its settings. -/
inductive CaptureAct (F α : Type)
  | turn (i : CaptureInput F α)
  | control (m : ControlMessage)
  | setVoiceThreshold (db : F)
  | setMode (pushToTalk : Bool) (releaseDelayMs : Nat)
  | setPttHeld (held : Bool) (nowMs : Nat)
  | setPtmHeld (held : Bool)

namespace CaptureLoop

def perform (s : CaptureLoop F α) : CaptureAct F α → CaptureLoop F α
  | .turn i => s.captureTurn ops i
  | .control m => { s with mic := s.mic.handle m }
  | .setVoiceThreshold db => { s with voiceThresholdDb := db }
  | .setMode ptt delay => { s with hotkeys := s.hotkeys.setMode ptt delay }
  | .setPttHeld held nowMs => { s with hotkeys := s.hotkeys.setPttHeld held nowMs }
  | .setPtmHeld held => { s with hotkeys := s.hotkeys.setPtmHeld held }

/-- The runs of the loop. Hotkeys start anyhow, as they outlive sessions; the clock is the last
    turn's start. -/
def captureSystem : System (CaptureLoop F α × Nat) (CaptureAct F α) where
  init s := ∃ threshold hotkeys, s.1 = { voiceThresholdDb := threshold, hotkeys, lastVoiceSend := s.2 }
  step s a s' := s'.1 = s.1.perform ops a ∧
    match a with
    | .turn i => s.2 ≤ i.loopStart ∧ s'.2 = i.loopStart
    | _ => s'.2 = s.2

/-! ## What the packets should satisfy -/

def OpenAt (ticks : List CaptureTick) (n : Nat) : Prop := ∃ r, ticks[n]? = some r ∧ r.gateOpen = true

def ClosedAt (ticks : List CaptureTick) (n : Nat) : Prop :=
  ∃ r, ticks[n]? = some r ∧ r.gateOpen = false

/-- In a tick the microphone was neither muted nor closed by a hotkey. -/
def LiveAt (ticks : List CaptureTick) (n : Nat) : Prop := ∃ r, ticks[n]? = some r ∧ r.live = true

/-- One of the three parts of a fade-out right after an open gate. -/
def FadesOut (ticks : List CaptureTick) (index : Nat) (fade : Fade) : Prop :=
  ∃ t < gateTailFrames, ∃ opened, fade = .fadeOut t ∧ index = opened + (t + 1) ∧
    OpenAt ticks opened ∧ ∀ j, opened < j → j ≤ index → ClosedAt ticks j

/-- Captured with the microphone live, or part of a fade-out. -/
def Rightful (ticks : List CaptureTick) (index : Nat) (fade : Fade) : Prop :=
  LiveAt ticks index ∨ FadesOut ticks index fade

/-- In an open gate's tick, its pre-roll, or part of a fade-out. -/
def Gated (ticks : List CaptureTick) (index : Nat) (fade : Fade) : Prop :=
  OpenAt ticks index ∨ (fade = .fadeIn ∧ OpenAt ticks (index + 1)) ∨ FadesOut ticks index fade

/-- The frames in packets, by their place in the capture. -/
def carried (packets : List (VoicePacket α)) : List Nat :=
  packets.filterMap fun p => p.content.map (·.1.index)

/-- What the packets should satisfy. -/
structure NothingLeaks (s : CaptureLoop F α) : Prop where
  /-- Every packet with audio carries a frame that may be sent. -/
  rightful : ∀ p ∈ s.packets, p.sent = true → ∀ f fade, p.content = some (f, fade) →
    Rightful s.ticks f.index fade
  /-- Away from an open gate packets are silent. -/
  gated : ∀ p ∈ s.packets, ∀ f fade, p.content = some (f, fade) → Gated s.ticks f.index fade
  /-- A silent packet is an interval or more after any earlier tick. -/
  spaced : s.packets.Pairwise fun p q =>
    q.content = none → p.tickStart + keepaliveInterval ≤ q.checkedAt
  /-- Every frame is sent once at most, and in the order of capture. -/
  ordered : (carried s.packets).Pairwise (· < ·)
  /-- The numbers of the packets advance by one. -/
  numbered : ∀ n p, s.packets[n]? = some p → p.sequence = n % 2 ^ 16

/-- Where the level opens the gate, and the frame held back is sent, that was captured live. -/
def HeldLive (s : CaptureLoop F α) : CaptureAct F α → Prop
  | .turn i => i.frame.isSome → s.gateOpen = false → s.mic.muted = false →
      s.hotkeys.gateAt i.nowMs = .vad → ops.ge i.rmsDb s.voiceThresholdDb = true →
      i.preRollOutcome = .sent → ∀ f, s.gatePreRoll = some f → LiveAt s.ticks f.index
  | _ => True

/-! ## The turns -/

variable {ops} {s : CaptureLoop F α} {i : CaptureInput F α} {samples : α}

section sendPacket

variable (m d q : Bool) (c : Option (CapturedFrame α × Fade)) (o : FrameOutcome)

theorem sendPacket_eq : ∃ sequence packets,
    s.sendPacket i m d q c o = { s with sequence, packets } := by
  unfold sendPacket
  split
  · exact ⟨_, _, rfl⟩
  · exact ⟨_, _, rfl⟩

@[simp] theorem sendPacket_mic : (s.sendPacket i m d q c o).mic = s.mic := by
  obtain ⟨_, _, h⟩ := sendPacket_eq (s := s) (i := i) m d q c o
  rw [h]

@[simp] theorem sendPacket_ticks : (s.sendPacket i m d q c o).ticks = s.ticks := by
  obtain ⟨_, _, h⟩ := sendPacket_eq (s := s) (i := i) m d q c o
  rw [h]

end sendPacket

/-- The loop after a turn, before anything is sent. -/
def ticked (s : CaptureLoop F α) (i : CaptureInput F α) (gateOpen : Bool) (hang tail : Nat)
    (preRoll : Option (CapturedFrame α)) (sends : Bool) : CaptureLoop F α :=
  { s with
    gateOpen
    gateHangRemaining := hang
    gateTailRemaining := tail
    lastVoiceSend := if sends then i.loopStart else s.lastVoiceSend
    gatePreRoll := preRoll
    ticks := s.ticks ++ [⟨! (s.mic.muted || s.hotkeys.gateAt i.nowMs = .closed), gateOpen⟩] }

/-- The frame sent before the one that opens the gate. -/
def preRollOf (s : CaptureLoop F α) (i : CaptureInput F α) : Option (CapturedFrame α) :=
  if s.gateOpen = false ∧ s.hotkeys.gateAt i.nowMs ≠ .open then s.gatePreRoll else none

def sendPreRoll (s : CaptureLoop F α) (i : CaptureInput F α) :
    Option (CapturedFrame α) → CaptureLoop F α
  | some pr =>
    s.sendPacket i s.mic.muted s.mic.deafened false (some (pr, .fadeIn)) i.preRollOutcome
  | none => s

variable (samples) in
theorem captureFrame_open {hang : Nat}
    (h : s.moveGate ops (s.hotkeys.gateAt i.nowMs) i.rmsDb = (true, hang)) :
    ∃ fade, s.captureFrame ops i samples =
      ((s.ticked i true hang s.gateTailRemaining none true).sendPreRoll i (s.preRollOf i)).sendPacket
        i s.mic.muted s.mic.deafened false (some (⟨s.ticks.length, samples⟩, fade))
        i.frameOutcome := by
  refine ⟨if s.gateOpen = false ∧ (s.preRollOf i).isNone then .fadeIn else .none, ?_⟩
  unfold captureFrame
  simp only [h]
  cases ho : s.gateOpen
  · by_cases hk : s.hotkeys.gateAt i.nowMs = .open
    · simp [hk, preRollOf, sendPreRoll, ticked, ho]
    · cases hp : s.gatePreRoll <;> simp [hk, preRollOf, sendPreRoll, ticked, ho, hp]
  · simp [preRollOf, sendPreRoll, ticked, ho]

theorem captureFrame_tail {hang tail : Nat}
    (h : s.moveGate ops (s.hotkeys.gateAt i.nowMs) i.rmsDb = (false, hang))
    (ht : (if s.gateOpen then gateTailFrames else s.gateTailRemaining) = tail + 1) :
    s.captureFrame ops i samples = (s.ticked i false hang tail none true).sendPacket
      i s.mic.muted s.mic.deafened true
      (some (⟨s.ticks.length, samples⟩, .fadeOut (gateTailFrames - (tail + 1)))) i.frameOutcome := by
  unfold captureFrame
  simp only [h]
  simp [ht, ticked]

theorem captureFrame_closed {hang : Nat}
    (h : s.moveGate ops (s.hotkeys.gateAt i.nowMs) i.rmsDb = (false, hang))
    (ht : (if s.gateOpen then gateTailFrames else s.gateTailRemaining) = 0) :
    s.captureFrame ops i samples =
      if keepaliveInterval ≤ i.checkedAt - s.lastVoiceSend then
        (s.ticked i false hang 0 (some ⟨s.ticks.length, samples⟩) true).sendPacket
          i s.mic.muted s.mic.deafened true none i.frameOutcome
      else s.ticked i false hang 0 (some ⟨s.ticks.length, samples⟩) false := by
  unfold captureFrame
  simp only [h]
  by_cases hk : keepaliveInterval ≤ i.checkedAt - s.lastVoiceSend <;> simp [ht, ticked, hk]

/-! ## The record of the ticks -/

section ticks

variable {ticks : List CaptureTick} {r : CaptureTick} {n : Nat} {fade : Fade}

theorem getElem?_of_append {r' : CaptureTick} (h : ticks[n]? = some r') :
    (ticks ++ [r])[n]? = some r' := by
  rw [getElem?_append_left (List.getElem?_eq_some_iff.1 h).1, h]

theorem OpenAt.append (h : OpenAt ticks n) : OpenAt (ticks ++ [r]) n := by
  obtain ⟨r', h, ho⟩ := h
  exact ⟨r', getElem?_of_append h, ho⟩

theorem ClosedAt.append (h : ClosedAt ticks n) : ClosedAt (ticks ++ [r]) n := by
  obtain ⟨r', h, hc⟩ := h
  exact ⟨r', getElem?_of_append h, hc⟩

theorem LiveAt.append (h : LiveAt ticks n) : LiveAt (ticks ++ [r]) n := by
  obtain ⟨r', h, hl⟩ := h
  exact ⟨r', getElem?_of_append h, hl⟩

theorem FadesOut.append (h : FadesOut ticks n fade) : FadesOut (ticks ++ [r]) n fade := by
  obtain ⟨t, ht, opened, hfade, hn, hopen, hclosed⟩ := h
  exact ⟨t, ht, opened, hfade, hn, hopen.append, fun j hj hj' => (hclosed j hj hj').append⟩

theorem Rightful.append (h : Rightful ticks n fade) : Rightful (ticks ++ [r]) n fade :=
  h.imp LiveAt.append FadesOut.append

theorem Gated.append (h : Gated ticks n fade) : Gated (ticks ++ [r]) n fade :=
  h.imp OpenAt.append (Or.imp (And.imp_right OpenAt.append) FadesOut.append)

theorem getElem?_last : (ticks ++ [r])[ticks.length]? = some r := by
  rw [getElem?_append_right (Nat.le_refl _), Nat.sub_self]
  rfl

end ticks

/-! ## The packets -/

/-- The packets at the end of a turn that last sent at `lastVoiceSend`. -/
structure PacketsOk (s : CaptureLoop F α) : Prop where
  next : s.sequence = s.packets.length % 2 ^ 16
  leaks : s.NothingLeaks
  bounded : ∀ n ∈ carried s.packets, n < s.ticks.length
  sentBy : ∀ p ∈ s.packets, p.tickStart ≤ s.lastVoiceSend

theorem PacketsOk.ticked (h : s.PacketsOk) (hle : s.lastVoiceSend ≤ i.loopStart) {o : Bool}
    {hang tail : Nat} {pr : Option (CapturedFrame α)} {sends : Bool} :
    (s.ticked i o hang tail pr sends).PacketsOk where
  next := h.next
  leaks := {
    rightful := fun p hp hs f fade hc => (h.leaks.rightful p hp hs f fade hc).append
    gated := fun p hp f fade hc => (h.leaks.gated p hp f fade hc).append
    spaced := h.leaks.spaced
    ordered := h.leaks.ordered
    numbered := h.leaks.numbered }
  bounded n hn := by
    have := h.bounded n hn
    simp only [CaptureLoop.ticked, length_append, length_singleton]
    omega
  sentBy p hp := by
    have := h.sentBy p hp
    simp only [CaptureLoop.ticked]
    split
    · exact Nat.le_trans this hle
    · exact this

theorem PacketsOk.sendPacket (h : s.PacketsOk) {m d q : Bool}
    {c : Option (CapturedFrame α × Fade)} {o : FrameOutcome}
    (hstart : i.loopStart ≤ s.lastVoiceSend)
    (hc : ∀ f fade, c = some (f, fade) → (∀ n ∈ carried s.packets, n < f.index) ∧
      f.index < s.ticks.length ∧ Gated s.ticks f.index fade ∧
        (o = .sent → Rightful s.ticks f.index fade))
    (hq : c = none → ∀ p ∈ s.packets, p.tickStart + keepaliveInterval ≤ i.checkedAt) :
    (s.sendPacket i m d q c o).PacketsOk := by
  unfold CaptureLoop.sendPacket
  split
  · exact h
  refine ⟨?_, ⟨?_, ?_, ?_, ?_, ?_⟩, ?_, ?_⟩
  · simp only [length_append, length_singleton, h.next]
    omega
  · intro p hp hs f fade hpc
    rcases mem_append.1 hp with hp | hp
    · exact h.leaks.rightful p hp hs f fade hpc
    · obtain rfl := mem_singleton.1 hp
      exact (hc f fade hpc).2.2.2 (of_decide_eq_true hs)
  · intro p hp f fade hpc
    rcases mem_append.1 hp with hp | hp
    · exact h.leaks.gated p hp f fade hpc
    · obtain rfl := mem_singleton.1 hp
      exact (hc f fade hpc).2.2.1
  · refine pairwise_append.2 ⟨h.leaks.spaced, pairwise_singleton _ _, ?_⟩
    intro p hp p' hp' hnone
    obtain rfl := mem_singleton.1 hp'
    exact hq hnone p hp
  · rw [carried, filterMap_append]
    refine pairwise_append.2 ⟨h.leaks.ordered, ?_, ?_⟩
    · rcases c with _ | ⟨f, fade⟩
      · exact List.Pairwise.nil
      · exact pairwise_singleton _ _
    · intro n hn n' hn'
      rcases c with _ | ⟨f, fade⟩
      · exact nomatch hn'
      · obtain rfl := mem_singleton.1 hn'
        exact (hc f fade rfl).1 n hn
  · intro n p hp
    rcases Nat.lt_or_ge n s.packets.length with hlt | hge
    · rw [getElem?_append_left hlt] at hp
      exact h.leaks.numbered n p hp
    · rw [getElem?_append_right hge] at hp
      have hn : n - s.packets.length = 0 := by
        have := (List.getElem?_eq_some_iff.1 hp).1
        simpa using this
      rw [hn] at hp
      obtain rfl := Option.some.inj hp
      have : n = s.packets.length := by omega
      rw [this]
      exact h.next
  · intro n hn
    rw [carried, filterMap_append] at hn
    rcases mem_append.1 hn with hn | hn
    · exact h.bounded n hn
    · rcases c with _ | ⟨f, fade⟩
      · exact nomatch hn
      · obtain rfl := mem_singleton.1 hn
        exact (hc f fade rfl).2.1
  · intro p hp
    rcases mem_append.1 hp with hp | hp
    · exact h.sentBy p hp
    · obtain rfl := mem_singleton.1 hp
      exact hstart

theorem carried_sendPacket {m d q : Bool} {f : CapturedFrame α} {fade : Fade} {o : FrameOutcome}
    {n : Nat} (hn : n ∈ carried (s.sendPacket i m d q (some (f, fade)) o).packets) :
    n ∈ carried s.packets ∨ n = f.index := by
  unfold CaptureLoop.sendPacket at hn
  split at hn
  · exact .inl hn
  · rw [carried, filterMap_append] at hn
    exact (mem_append.1 hn).imp id fun hn => mem_singleton.1 hn

theorem carried_sendPacket_none {m d q : Bool} {o : FrameOutcome} :
    carried (s.sendPacket i m d q none o).packets = carried s.packets := by
  unfold CaptureLoop.sendPacket
  split
  · rfl
  · rw [carried, filterMap_append]
    exact append_nil _

theorem mem_packets_sendPacket {p : VoicePacket α} (hp : p ∈ s.packets) {m d q : Bool}
    {c : Option (CapturedFrame α × Fade)} {o : FrameOutcome} :
    p ∈ (s.sendPacket i m d q c o).packets := by
  unfold CaptureLoop.sendPacket
  split
  · exact hp
  · exact mem_append_left _ hp

/-! ## Runs -/

/-- What holds between turns, the last of which started at `clock`. -/
structure Steady (s : CaptureLoop F α) (clock : Nat) : Prop where
  packets : s.PacketsOk
  clock : s.lastVoiceSend ≤ clock
  opened : s.gateOpen = true → ∃ n, s.ticks.length = n + 1 ∧ OpenAt s.ticks n
  /-- What remains of a closed gate's tail is what it was not closed for. -/
  tail : s.gateOpen = false → ∀ r, s.gateTailRemaining = r + 1 →
    ∃ opened t, t + (r + 1) = gateTailFrames ∧ s.ticks.length = opened + (t + 1) ∧
      OpenAt s.ticks opened ∧ ∀ j, opened < j → j < s.ticks.length → ClosedAt s.ticks j
  /-- The frame held back is the last one captured, and was not sent. -/
  held : ∀ f, s.gatePreRoll = some f →
    s.ticks.length = f.index + 1 ∧ ∀ n ∈ carried s.packets, n < f.index

variable {clock : Nat}

/-- The gate opens with the microphone live only; without the key, by the level only. -/
theorem moveGate_open {hotkeyGate : Gate} {rmsDb : F} {hang : Nat}
    (h : s.moveGate ops hotkeyGate rmsDb = (true, hang)) :
    s.mic.muted = false ∧ hotkeyGate ≠ .closed ∧ (s.gateOpen = false → hotkeyGate ≠ .open →
      ops.ge rmsDb s.voiceThresholdDb = true) := by
  unfold moveGate at h
  split at h
  · exact nomatch h
  rename_i hlive
  simp only [Bool.or_eq_true, decide_eq_true_eq, not_or, Bool.not_eq_true] at hlive
  refine ⟨hlive.1, hlive.2, fun hclosed hkey => ?_⟩
  rw [if_neg hkey] at h
  split at h
  · assumption
  · rw [hclosed] at h
    exact nomatch h

/-- What the tick of a turn records of the microphone. -/
def liveIn (s : CaptureLoop F α) (i : CaptureInput F α) : Bool :=
  ! (s.mic.muted || s.hotkeys.gateAt i.nowMs = .closed)

theorem ticked_ticks (s : CaptureLoop F α) (i : CaptureInput F α) (o : Bool) (hang tail : Nat)
    (pr : Option (CapturedFrame α)) (sends : Bool) :
    (s.ticked i o hang tail pr sends).ticks = s.ticks ++ [⟨s.liveIn i, o⟩] := rfl

theorem sendPreRoll_eq (pr : Option (CapturedFrame α)) : ∃ sequence packets,
    s.sendPreRoll i pr = { s with sequence, packets } := by
  cases pr with
  | none => exact ⟨_, _, rfl⟩
  | some pr => exact sendPacket_eq _ _ _ _ _

theorem steady_open (h : s.Steady clock) (hle : clock ≤ i.loopStart) {hang : Nat}
    (hgate : s.moveGate ops (s.hotkeys.gateAt i.nowMs) i.rmsDb = (true, hang))
    (hheld : i.preRollOutcome = .sent → ∀ f, s.preRollOf i = some f → LiveAt s.ticks f.index) :
    (s.captureFrame ops i samples).Steady i.loopStart := by
  obtain ⟨hmuted, hkey, -⟩ := moveGate_open hgate
  obtain ⟨fade, heq⟩ := captureFrame_open samples hgate
  rw [heq]
  have hticked : (s.ticked i true hang s.gateTailRemaining none true).PacketsOk :=
    h.packets.ticked (Nat.le_trans h.clock hle)
  generalize hs₁ : s.ticked i true hang s.gateTailRemaining none true = s₁ at hticked ⊢
  have hticks : s₁.ticks = s.ticks ++ [⟨s.liveIn i, true⟩] := by rw [← hs₁, ticked_ticks]
  have hsent : s₁.lastVoiceSend = i.loopStart := by
    rw [← hs₁]
    rfl
  have hopen : OpenAt s₁.ticks s.ticks.length := by
    rw [hticks]
    exact ⟨_, getElem?_last, rfl⟩
  have hlive : LiveAt s₁.ticks s.ticks.length := by
    rw [hticks]
    refine ⟨_, getElem?_last, ?_⟩
    simp [liveIn, hmuted, hkey]
  have hlength : s₁.ticks.length = s.ticks.length + 1 := by simp [hticks]
  -- The pre-roll is the frame held back, which comes after all that were sent.
  have hpre : (s₁.sendPreRoll i (s.preRollOf i)).PacketsOk ∧
      ∀ n ∈ carried (s₁.sendPreRoll i (s.preRollOf i)).packets, n < s.ticks.length := by
    have hbounded : ∀ n ∈ carried s₁.packets, n < s.ticks.length := by
      rw [← hs₁]
      exact h.packets.bounded
    rcases hp : s.preRollOf i with _ | f
    · exact ⟨hticked, hbounded⟩
    have hf : s.gatePreRoll = some f := by
      unfold preRollOf at hp
      split at hp
      · exact hp
      · exact nomatch hp
    obtain ⟨hindex, hafter⟩ := h.held f hf
    refine ⟨hticked.sendPacket (Nat.le_of_eq hsent.symm) ?_ nofun, fun n hn => ?_⟩
    · rintro _ _ ⟨⟩
      refine ⟨?_, by omega, .inr (.inl ⟨rfl, hindex ▸ hopen⟩), fun ho => .inl ?_⟩
      · rw [← hs₁]
        exact hafter
      · rw [hticks]
        exact (hheld ho f hp).append
    · rcases carried_sendPacket hn with hn | rfl
      · exact hbounded n hn
      · omega
  obtain ⟨sequence, packets, hpr⟩ := sendPreRoll_eq (s := s₁) (i := i) (s.preRollOf i)
  rw [hpr] at hpre ⊢
  have hpackets := hpre.1.sendPacket (i := i) (m := s.mic.muted) (d := s.mic.deafened) (q := false)
    (c := some (⟨s.ticks.length, samples⟩, fade)) (o := i.frameOutcome) (Nat.le_of_eq hsent.symm)
    (by rintro _ _ ⟨⟩; exact ⟨hpre.2, by simp [hlength], .inl hopen, fun _ => .inl hlive⟩) nofun
  obtain ⟨sequence', packets', hframe⟩ := sendPacket_eq (s := { s₁ with sequence, packets })
    (i := i) s.mic.muted s.mic.deafened false (some (⟨s.ticks.length, samples⟩, fade)) i.frameOutcome
  rw [hframe] at hpackets ⊢
  subst hs₁
  exact ⟨hpackets, Nat.le_refl _, fun _ => ⟨_, hlength, hopen⟩, nofun, nofun⟩

theorem steady_tail (h : s.Steady clock) (hle : clock ≤ i.loopStart) {hang r : Nat}
    (hgate : s.moveGate ops (s.hotkeys.gateAt i.nowMs) i.rmsDb = (false, hang))
    (ht : (if s.gateOpen then gateTailFrames else s.gateTailRemaining) = r + 1) :
    (s.captureFrame ops i samples).Steady i.loopStart := by
  rw [captureFrame_tail hgate ht]
  have hticked : (s.ticked i false hang r none true).PacketsOk :=
    h.packets.ticked (Nat.le_trans h.clock hle)
  -- The part of the fade-out is the number of ticks since the gate was open.
  obtain ⟨opened, t, hsum, hlen, hopen, hclosed⟩ : ∃ opened t, t + (r + 1) = gateTailFrames ∧
      s.ticks.length = opened + (t + 1) ∧ OpenAt s.ticks opened ∧
        ∀ j, opened < j → j < s.ticks.length → ClosedAt s.ticks j := by
    cases ho : s.gateOpen
    · rw [ho] at ht
      exact h.tail ho r ht
    · obtain ⟨n, hn, hopen⟩ := h.opened ho
      rw [ho, if_pos rfl] at ht
      exact ⟨n, 0, by omega, hn, hopen, fun j hj hj' => by omega⟩
  generalize hs₁ : s.ticked i false hang r none true = s₁ at hticked ⊢
  have hticks : s₁.ticks = s.ticks ++ [⟨s.liveIn i, false⟩] := by rw [← hs₁, ticked_ticks]
  have hlength : s₁.ticks.length = opened + (t + 1) + 1 := by simp [hticks, hlen]
  have hclosed' : ∀ j, opened < j → j < s₁.ticks.length → ClosedAt s₁.ticks j := by
    intro j hj hj'
    rw [hticks]
    rcases Nat.lt_or_ge j s.ticks.length with hlt | hge
    · exact (hclosed j hj hlt).append
    · obtain rfl : j = s.ticks.length := by omega
      exact ⟨_, getElem?_last, rfl⟩
  have hopen' : OpenAt s₁.ticks opened := by
    rw [hticks]
    exact hopen.append
  have hfades : FadesOut s₁.ticks s.ticks.length (.fadeOut (gateTailFrames - (r + 1))) :=
    ⟨t, by omega, opened, by rw [← hsum, Nat.add_sub_cancel], hlen, hopen',
      fun j hj hj' => hclosed' j hj (by omega)⟩
  have hpackets := hticked.sendPacket (i := i) (m := s.mic.muted) (d := s.mic.deafened) (q := true)
    (c := some (⟨s.ticks.length, samples⟩, .fadeOut (gateTailFrames - (r + 1))))
    (o := i.frameOutcome) (by rw [← hs₁]; exact Nat.le_refl _)
    (by
      rintro _ _ ⟨⟩
      refine ⟨fun n hn => ?_, by simp [hlength, hlen], .inr (.inr hfades), fun _ => .inr hfades⟩
      rw [← hs₁] at hn
      exact h.packets.bounded n hn) nofun
  obtain ⟨sequence, packets, hframe⟩ := sendPacket_eq (s := s₁) (i := i) s.mic.muted
    s.mic.deafened true (some (⟨s.ticks.length, samples⟩, .fadeOut (gateTailFrames - (r + 1))))
    i.frameOutcome
  rw [hframe] at hpackets ⊢
  have hfields : s₁.gateOpen = false ∧ s₁.gateTailRemaining = r ∧ s₁.gatePreRoll = none ∧
      s₁.lastVoiceSend = i.loopStart := by
    rw [← hs₁]
    exact ⟨rfl, rfl, rfl, rfl⟩
  obtain ⟨hclosedNow, hremaining, hnone, hsent⟩ := hfields
  refine ⟨hpackets, Nat.le_of_eq hsent, fun ho => ?_, fun _ r' hr' => ?_, fun f hf => ?_⟩
  · exact nomatch hclosedNow.symm.trans ho
  · have hr := hremaining.symm.trans hr'
    exact ⟨opened, t + 1, by omega, hlength, hopen', hclosed'⟩
  · exact nomatch hnone.symm.trans hf

theorem steady_closed (h : s.Steady clock) (hle : clock ≤ i.loopStart) {hang : Nat}
    (hgate : s.moveGate ops (s.hotkeys.gateAt i.nowMs) i.rmsDb = (false, hang))
    (ht : (if s.gateOpen then gateTailFrames else s.gateTailRemaining) = 0) :
    (s.captureFrame ops i samples).Steady i.loopStart := by
  have hle' := Nat.le_trans h.clock hle
  rw [captureFrame_closed hgate ht]
  have hrest : ∀ (sends : Bool) (sequence : Nat) (packets : List (VoicePacket α)),
      PacketsOk { s.ticked i false hang 0 (some ⟨s.ticks.length, samples⟩) sends with
        sequence, packets } → carried packets = carried s.packets →
      Steady { s.ticked i false hang 0 (some ⟨s.ticks.length, samples⟩) sends with
        sequence, packets } i.loopStart := by
    intro sends sequence packets hpackets hcarried
    refine ⟨hpackets, ?_, nofun, nofun, ?_⟩
    · simp only [ticked]
      split
      · exact Nat.le_refl _
      · exact hle'
    · rintro _ ⟨⟩
      refine ⟨by simp [ticked], fun n hn => ?_⟩
      simp only at hn
      rw [hcarried] at hn
      exact h.packets.bounded n hn
  split
  · rename_i hdue
    have hpackets : (sendPacket (s.ticked i false hang 0 (some ⟨s.ticks.length, samples⟩) true) i
        s.mic.muted s.mic.deafened true none i.frameOutcome).PacketsOk := by
      refine (h.packets.ticked hle').sendPacket (Nat.le_refl _) nofun fun _ p hp => ?_
      have := h.packets.sentBy p hp
      rw [keepaliveInterval] at hdue ⊢
      omega
    have hcarried := carried_sendPacket_none (i := i) (o := i.frameOutcome) (m := s.mic.muted)
      (s := s.ticked i false hang 0 (some ⟨s.ticks.length, samples⟩) true) (d := s.mic.deafened)
      (q := true)
    obtain ⟨sequence, packets, hframe⟩ := sendPacket_eq (i := i) (α := α) s.mic.muted
      (s := s.ticked i false hang 0 (some ⟨s.ticks.length, samples⟩) true) s.mic.deafened
      true none i.frameOutcome
    rw [hframe] at hpackets hcarried ⊢
    exact hrest true sequence packets hpackets hcarried
  · have htick : (s.ticked i false hang 0 (some ⟨s.ticks.length, samples⟩) false).PacketsOk :=
      h.packets.ticked hle'
    exact hrest false _ _ htick rfl

theorem steady_silent (h : s.Steady clock) (hle : clock ≤ i.loopStart)
    (hdue : keepaliveInterval ≤ i.checkedAt - s.lastVoiceSend) :
    (sendPacket { s with lastVoiceSend := i.loopStart } i true false true none
      i.frameOutcome).Steady i.loopStart := by
  have hticked : PacketsOk { s with lastVoiceSend := i.loopStart } :=
    ⟨h.packets.next, ⟨h.packets.leaks.rightful, h.packets.leaks.gated, h.packets.leaks.spaced,
      h.packets.leaks.ordered, h.packets.leaks.numbered⟩, h.packets.bounded, fun p hp =>
      Nat.le_trans (h.packets.sentBy p hp) (Nat.le_trans h.clock hle)⟩
  have hpackets : (sendPacket { s with lastVoiceSend := i.loopStart } i true false true none
      i.frameOutcome).PacketsOk := by
    refine hticked.sendPacket (Nat.le_refl _) nofun fun _ p hp => ?_
    have := h.packets.sentBy p hp
    rw [keepaliveInterval] at hdue ⊢
    omega
  have hcarried := carried_sendPacket_none (i := i) (o := i.frameOutcome) (m := true)
    (s := { s with lastVoiceSend := i.loopStart }) (d := false) (q := true)
  obtain ⟨sequence, packets, hframe⟩ := sendPacket_eq (i := i) (α := α) true
    (s := { s with lastVoiceSend := i.loopStart }) false true none i.frameOutcome
  rw [hframe] at hpackets hcarried ⊢
  exact ⟨hpackets, Nat.le_refl _, h.opened, h.tail, fun f hf =>
    ⟨(h.held f hf).1, fun n hn => (h.held f hf).2 n (hcarried ▸ hn)⟩⟩

theorem preRollOf_eq {hang : Nat} {f : CapturedFrame α}
    (hgate : s.moveGate ops (s.hotkeys.gateAt i.nowMs) i.rmsDb = (true, hang))
    (hf : s.preRollOf i = some f) : s.gateOpen = false ∧ s.mic.muted = false ∧
      s.hotkeys.gateAt i.nowMs = .vad ∧ ops.ge i.rmsDb s.voiceThresholdDb = true ∧
      s.gatePreRoll = some f := by
  obtain ⟨hmuted, hclosed, hlevel⟩ := moveGate_open hgate
  unfold preRollOf at hf
  split at hf
  · rename_i h
    refine ⟨h.1, hmuted, ?_, hlevel h.1 h.2, hf⟩
    cases hk : s.hotkeys.gateAt i.nowMs
    · rfl
    · exact absurd hk h.2
    · exact absurd hk hclosed
  · exact nomatch hf

theorem steady_turn (h : s.Steady clock) (hle : clock ≤ i.loopStart)
    (hheld : s.HeldLive ops (.turn i)) : (s.captureTurn ops i).Steady i.loopStart := by
  unfold captureTurn
  cases hframe : i.frame with
  | none =>
    simp only
    split
    · rename_i hdue
      simp only [Bool.and_eq_true, decide_eq_true_eq] at hdue
      exact steady_silent h hle hdue.2
    · exact ⟨h.packets, Nat.le_trans h.clock hle, h.opened, h.tail, h.held⟩
  | some samples =>
    rcases hgate : s.moveGate ops (s.hotkeys.gateAt i.nowMs) i.rmsDb with ⟨_ | _, hang⟩
    · cases ht : (if s.gateOpen then gateTailFrames else s.gateTailRemaining) with
      | zero => exact steady_closed h hle hgate ht
      | succ r => exact steady_tail h hle hgate ht
    · refine steady_open h hle hgate fun ho f hf => ?_
      obtain ⟨hclosed, hmuted, hvad, hlevel, hpre⟩ := preRollOf_eq hgate hf
      exact hheld (hframe ▸ rfl) hclosed hmuted hvad hlevel ho f hpre

theorem heldLive_of_nothingLeaks (h : s.Steady clock)
    (hleaks : (s.captureTurn ops i).NothingLeaks) : s.HeldLive ops (.turn i) := by
  intro hframe hclosed hmuted hvad hlevel hout f hf
  obtain ⟨samples, hframe⟩ := Option.isSome_iff_exists.1 hframe
  have hgate : s.moveGate ops (s.hotkeys.gateAt i.nowMs) i.rmsDb = (true, gateHangFrames) := by
    simp [moveGate, hmuted, hvad, hlevel]
  have hpre : s.preRollOf i = some f := by simp [preRollOf, hclosed, hvad, hf]
  obtain ⟨fade, heq⟩ := captureFrame_open samples hgate
  rw [captureTurn, hframe] at hleaks
  simp only [heq, hpre] at hleaks
  obtain ⟨hindex, -⟩ := h.held f hf
  -- The pre-roll is among the packets, and is no part of a fade-out.
  obtain ⟨p, hp, hsent, hcontent⟩ : ∃ p ∈ (sendPreRoll
      (s.ticked i true gateHangFrames s.gateTailRemaining none true) i (some f)).packets,
      p.sent = true ∧ p.content = some (f, .fadeIn) := by
    rw [sendPreRoll, CaptureLoop.sendPacket, hout, if_neg (by decide)]
    exact ⟨_, mem_append_right _ (mem_singleton_self _), rfl, rfl⟩
  have hright := hleaks.rightful p (mem_packets_sendPacket hp) hsent f .fadeIn hcontent
  obtain ⟨sequence, packets, hpr⟩ := sendPreRoll_eq (i := i)
    (s := s.ticked i true gateHangFrames s.gateTailRemaining none true) (some f)
  rw [sendPacket_ticks, hpr] at hright
  simp only [ticked_ticks] at hright
  rcases hright with ⟨r, hr, hlive⟩ | ⟨_, _, _, hfade, _⟩
  · rw [getElem?_append_left (by omega)] at hr
    exact ⟨r, hr, hlive⟩
  · exact nomatch hfade

theorem steady_init {st : CaptureLoop F α × Nat} (h : (captureSystem ops).init st) :
    st.1.Steady st.2 := by
  obtain ⟨threshold, hotkeys, hst⟩ := h
  rw [hst]
  refine ⟨⟨rfl, ⟨nofun, nofun, .nil, .nil, nofun⟩, nofun, nofun⟩, Nat.le_refl _, nofun, nofun, nofun⟩

theorem Steady.frame (h : s.Steady clock) (mic : Pipeline) (threshold : F) (hotkeys : GateState) :
    Steady { s with mic, voiceThresholdDb := threshold, hotkeys } clock :=
  ⟨⟨h.packets.next, ⟨h.packets.leaks.rightful, h.packets.leaks.gated, h.packets.leaks.spaced,
    h.packets.leaks.ordered, h.packets.leaks.numbered⟩, h.packets.bounded, h.packets.sentBy⟩,
    h.clock, h.opened, h.tail, h.held⟩

/-- A step leads to what holds again if it meets the condition; else something leaks. -/
theorem steady_step {st st' : CaptureLoop F α × Nat} {a : CaptureAct F α}
    (h : st.1.Steady st.2) (hstep : (captureSystem ops).step st a st') :
    (st.1.HeldLive ops a → st'.1.Steady st'.2) ∧ (st'.1.NothingLeaks → st.1.HeldLive ops a) := by
  obtain ⟨s, clock⟩ := st
  obtain ⟨s', clock'⟩ := st'
  obtain ⟨hs, hclock⟩ := hstep
  obtain rfl : s' = s.perform ops a := hs
  cases a with
  | turn i =>
    obtain ⟨hle, rfl⟩ := hclock
    exact ⟨steady_turn h hle, heldLive_of_nothingLeaks h⟩
  | control m =>
    obtain rfl := hclock
    exact ⟨fun _ => h.frame _ _ _, fun _ => trivial⟩
  | setVoiceThreshold db =>
    obtain rfl := hclock
    exact ⟨fun _ => h.frame _ _ _, fun _ => trivial⟩
  | setMode ptt delay =>
    obtain rfl := hclock
    exact ⟨fun _ => h.frame _ _ _, fun _ => trivial⟩
  | setPttHeld held nowMs =>
    obtain rfl := hclock
    exact ⟨fun _ => h.frame _ _ _, fun _ => trivial⟩
  | setPtmHeld held =>
    obtain rfl := hclock
    exact ⟨fun _ => h.frame _ _ _, fun _ => trivial⟩

/-- In a run whose turns meet the condition nothing leaks; and nothing after the next step exactly
    when that does. -/
theorem nothing_leaks {st : CaptureLoop F α × Nat}
    (h : ((captureSystem ops).given fun st a => st.1.HeldLive ops a).Reachable st) :
    st.1.NothingLeaks ∧ ∀ a st', (captureSystem ops).step st a st' →
      (st'.1.NothingLeaks ↔ st.1.HeldLive ops a) := by
  have hsteady : st.1.Steady st.2 := by
    refine System.reachable_invariant (I := fun st : CaptureLoop F α × Nat => st.1.Steady st.2)
      ?_ ?_ h
    · intro st (hinit : (captureSystem ops).init st)
      exact steady_init hinit
    · rintro _ a _ hs ⟨hstep, hheld⟩
      exact (steady_step hs hstep).1 hheld
  refine ⟨hsteady.packets.leaks, fun a st' hstep => ?_⟩
  obtain ⟨hkeeps, hmeets⟩ := steady_step hsteady hstep
  exact ⟨hmeets, fun hheld => (hkeeps hheld).packets.leaks⟩

def wholeDecibels : LevelOps Int where
  ge a b := b ≤ a
  subHysteresis db := db - 6

/-- A turn with a frame of some level, 20 ms after the last. -/
def frameAt (n : Nat) (level : Int) : CaptureInput Int Unit where
  loopStart := 20 * n
  nowMs := 20 * n
  checkedAt := 20 * n
  frame := some ()
  rmsDb := level
  noMic := false
  preRollOutcome := .sent
  frameOutcome := .sent

/-- A loop with the threshold at -50 dB. -/
def listening : CaptureLoop Int Unit := { voiceThresholdDb := -50, lastVoiceSend := 0 }

/-- A quiet frame, then a loud one, whose pre-roll it is. -/
def speaking : CaptureLoop Int Unit :=
  (listening.captureTurn wholeDecibels (frameAt 1 (-70))).captureTurn wholeDecibels (frameAt 2 (-20))

theorem nothing_leaks_speaking : carried speaking.packets = [0, 1] ∧ speaking.NothingLeaks := by
  have h : ((captureSystem wholeDecibels).given fun st a => st.1.HeldLive wholeDecibels a).Reachable
      (speaking, 40) := by
    refine .step (.turn (frameAt 2 (-20))) (s := (listening.captureTurn wholeDecibels
      (frameAt 1 (-70)), 20)) (.step (.turn (frameAt 1 (-70))) (s := (listening, 0))
        (.init ⟨_, _, rfl⟩) ⟨⟨rfl, by decide, rfl⟩, ?_⟩) ⟨⟨rfl, by decide, rfl⟩, ?_⟩
    · intro _ _ _ _ hlevel
      exact absurd hlevel (by decide)
    · rintro _ _ _ _ _ _ _ ⟨⟩
      exact ⟨_, rfl, rfl⟩
  exact ⟨by decide, (nothing_leaks h).1⟩

/-- Muted, a frame captured, unmuted, then a loud frame. -/
def unmuted : CaptureLoop Int Unit :=
  (((listening.perform wholeDecibels (.control (.setMute true))).captureTurn wholeDecibels
    (frameAt 1 (-20))).perform wholeDecibels (.control (.setMute false))).captureTurn wholeDecibels
      (frameAt 2 (-20))

/-- The frame captured while muted is sent. -/
theorem muted_frame_sent : ¬ ∀ st : CaptureLoop Int Unit × Nat,
    (captureSystem wholeDecibels).Reachable st → st.1.NothingLeaks := by
  intro h
  have hmuted : (captureSystem wholeDecibels).Reachable
      (listening.perform wholeDecibels (.control (.setMute true)), 0) :=
    .step (.control (.setMute true)) (.init (s := (listening, 0)) ⟨_, _, rfl⟩) ⟨rfl, rfl⟩
  have hframe : (captureSystem wholeDecibels).Reachable
      ((listening.perform wholeDecibels (.control (.setMute true))).captureTurn wholeDecibels
        (frameAt 1 (-20)), 20) :=
    .step (.turn (frameAt 1 (-20))) hmuted ⟨rfl, by decide, rfl⟩
  have hunmuted : (captureSystem wholeDecibels).Reachable
      (((listening.perform wholeDecibels (.control (.setMute true))).captureTurn wholeDecibels
        (frameAt 1 (-20))).perform wholeDecibels (.control (.setMute false)), 20) :=
    .step (.control (.setMute false)) hframe ⟨rfl, rfl⟩
  have hr : (captureSystem wholeDecibels).Reachable (unmuted, 40) :=
    .step (.turn (frameAt 2 (-20))) hunmuted ⟨rfl, by decide, rfl⟩
  have hright := (h _ hr).rightful _ (List.mem_cons_self) rfl _ _ rfl
  rcases hright with ⟨r, hr, hlive⟩ | ⟨_, _, _, hfade, _⟩
  · obtain rfl := Option.some.inj hr
    exact nomatch hlive
  · exact nomatch hfade

end CaptureLoop
end Decibell
