import Decibell.Lib.Assoc
import Decibell.Media.FrameAssembly

/-!
# The receiver of the video streams

The receiver has a state for each streamer: the frames on their way in, and the gate that hands
complete ones to the decoder in the order of their ids.
-/

namespace Decibell.Media

open Lib

def maxFramesInProgress : Nat := 64

/-- Most streamers at a time. -/
def maxSenders : Nat := 8

/-- How long an incomplete frame is kept after its latest packet. -/
def staleFrameTimeout : Duration := fromMillis 500
def maxFrameAge : Duration := fromSecs 2

/-- How long a complete frame waits for those before it. -/
def deliveryHold : Duration := fromMillis 80
def maxPendingDelivery : Nat := 32

/-- A keyframe behind the cursor by less than this is a late one. -/
def restartThreshold : UInt32 := 512
def restartSilence : Duration := fromSecs 1

/-- Senders without a packet for this long are forgotten. -/
def senderIdleTimeout : Duration := fromSecs 10

/-- A frame for the decoder. -/
structure ReassembledFrame where
  frameId : UInt32
  data : Bytes
  isKeyframe : Bool
  streamerId : Bytes
  codec : UInt8
  description : Option Bytes := none
  streams : List Nat

/-- The stream of the packet that completed the frame. -/
def ReassembledFrame.stream (f : ReassembledFrame) : Nat := f.streams.headD 0

/-- The packets of a frame that are asked for again. -/
structure NackRequest where
  target : Bytes
  frameId : UInt32
  missing : List Nat

/-- Wrap-aware "`a` strictly before `b`". -/
def seqBefore (a b : UInt32) : Bool := a ≠ b && b - a < 0x80000000

/-- The receive state of one streamer. -/
structure SenderState where
  id : Bytes
  framesInProgress : Assoc UInt32 FrameAssembly := .empty
  /-- Complete frames that wait for those before, and since when. -/
  pendingDelivery : Assoc UInt32 (Instant × ReassembledFrame) := .empty
  /-- The cursor: the next delta's id; none if only a keyframe goes. -/
  nextDelivery : Option UInt32 := none
  /-- When a packet was last asked for, and how often. -/
  nackTracking : Assoc (UInt32 × Nat) (Instant × Nat) := .empty
  hasKeyframe : Bool := false
  lastPli : Option Instant := none
  lastActivity : Instant
  wantPli : Bool := false

namespace SenderState

variable (s : SenderState)

/-! ## The gate -/

/-- Hands on the held frames from the cursor on. -/
def flushPending (s : SenderState) : SenderState × List ReassembledFrame :=
  match s.nextDelivery with
  | none => (s, [])
  | some next =>
    match h : s.pendingDelivery.get? next with
    | some held =>
      have : (s.pendingDelivery.remove next).size < s.pendingDelivery.size :=
        Assoc.size_remove_lt (h ▸ rfl)
      let flushed := flushPending
        { s with
          pendingDelivery := s.pendingDelivery.remove next
          nextDelivery := some (next + 1) }
      (flushed.1, held.2 :: flushed.2)
    | none => (s, [])
termination_by s.pendingDelivery.size

/-- A keyframe slightly behind the cursor was passed, unless it is keyframe 0 or ends a silence. -/
def late (fid : UInt32) (afterSilence : Bool) : Bool :=
  match s.nextDelivery with
  | none => false
  | some next =>
    let behind := next - fid
    let restarted := fid = 0 || afterSilence
    behind > 0 && behind < restartThreshold && !restarted

/-- A complete frame at the gate: the frames that go to the decoder. -/
def acceptCompleted (frame : ReassembledFrame) (now : Instant) (afterSilence : Bool) :
    SenderState × List ReassembledFrame :=
  let fid := frame.frameId
  if frame.isKeyframe then
    if s.late fid afterSilence then (s, [])
    else
      let flushed := flushPending
        { s with
          pendingDelivery := s.pendingDelivery.retain fun k _ => seqBefore fid k
          nextDelivery := some (fid + 1)
          hasKeyframe := true }
      (flushed.1, frame :: flushed.2)
  else
    match s.nextDelivery with
    | none => (s, [])
    | some next =>
      if fid = next then
        let flushed := flushPending { s with nextDelivery := some (fid + 1) }
        (flushed.1, frame :: flushed.2)
      else if seqBefore fid next then (s, [])
      else if s.pendingDelivery.size < maxPendingDelivery then
        ({ s with pendingDelivery := s.pendingDelivery.insert fid (now, frame) }, [])
      else (s, [])

/-- The held frame with the smallest id. -/
def firstHeld : Option (Instant × ReassembledFrame) :=
  (s.pendingDelivery.rows.argmin (·.1.toNat)).map (·.2)

/-- The first held frame, if it waited too long for the gap before it. -/
def overdue (now : Instant) : Option ReassembledFrame :=
  (s.firstHeld.filter fun held => deliveryHold < durationSince now held.1).map (·.2)

/-- Gives up a gap: no held frame can be decoded without it. -/
def expirePending (now : Instant) : SenderState :=
  if (s.overdue now).isSome then
    { s with pendingDelivery := .empty, nextDelivery := none, wantPli := true }
  else s

/-! ## A packet -/

/-- A frame that a packet of `stream` completed leaves those in progress. -/
def takeFrame (frameId : UInt32) (a : FrameAssembly) (stream : Nat) :
    SenderState × Option (ReassembledFrame × Bool) :=
  ({ s with
      framesInProgress := s.framesInProgress.remove frameId
      nackTracking := s.nackTracking.retain fun key _ => key.1 ≠ frameId },
    some
      ({ frameId
         isKeyframe := a.isKeyframe
         streamerId := s.id
         codec := a.codec
         data := a.intoData
         streams := stream :: a.streams }, a.afterSilence))

/-- A frame in progress after a packet; a complete one goes. -/
def putFrame (frameId : UInt32) (tried : FrameAssembly × Bool) (stream : Nat) :
    SenderState × Option (ReassembledFrame × Bool) :=
  if tried.2 then s.takeFrame frameId tried.1 stream
  else ({ s with framesInProgress := s.framesInProgress.insert frameId tried.1 }, none)

/-- A packet: the frame it completes, and if that began after a silence. -/
def processPacket (pkt : UdpVideoPacket) (now : Instant) (pick : UInt32) :
    SenderState × Option (ReassembledFrame × Bool) :=
  let afterSilence := restartSilence ≤ durationSince now s.lastActivity
  let s := { s with lastActivity := now }
  if !pkt.isKeyframe && s.nextDelivery.any (seqBefore pkt.frameId) then (s, none)
  else
    let oldest := s.framesInProgress.victim maxFramesInProgress (·.createdAt) pick pkt.frameId
    let s :=
      { s with
        framesInProgress := s.framesInProgress.removeAny oldest
        nackTracking := s.nackTracking.retain fun key _ => oldest ≠ some key.1 }
    let frame := (s.framesInProgress.get? pkt.frameId).getD
      (.new pkt.totalPackets.toNat pkt.isKeyframe pkt.codec afterSilence now)
    let frame := frame.insert pkt.packetIndex.toNat pkt.payload pkt.stream now
    let tried := if frame.isComplete then (frame, true) else frame.tryFecRecovery
    s.putFrame pkt.frameId tried pkt.stream

/-- A FEC packet: it counts only for a frame that has begun. -/
def processFecPacket (pkt : UdpFecPacket) (now : Instant) :
    SenderState × Option (ReassembledFrame × Bool) :=
  let s := { s with lastActivity := now }
  match s.framesInProgress.get? pkt.frameId with
  | none => (s, none)
  | some frame =>
    let frame := frame.addFecGroup
      { groupStart := pkt.groupStart.toNat
        groupCount := pkt.groupCount.toNat
        payloadSizeXor := pkt.payloadSizeXor.toNat
        payload := pkt.payload } pkt.stream
    s.putFrame pkt.frameId frame.tryFecRecovery pkt.stream

/-- A frame that a packet completed goes to the gate. -/
def deliver (taken : SenderState × Option (ReassembledFrame × Bool)) (now : Instant) :
    SenderState × List ReassembledFrame :=
  match taken.2 with
  | none => (taken.1, [])
  | some completed => taken.1.acceptCompleted completed.1 now completed.2

/-! ## What a packet does

Of the two halves of a packet, the first takes it in and does not touch the gate, and the second
is the gate's. -/

variable {s} {now : Instant} {frameId : UInt32} {stream : Nat}

/-- What the first half does. -/
structure Takes (s : SenderState) (frameId : UInt32) (stream : Nat)
    (taken : SenderState × Option (ReassembledFrame × Bool)) : Prop where
  pending : taken.1.pendingDelivery = s.pendingDelivery
  next : taken.1.nextDelivery = s.nextDelivery
  frames : taken.1.framesInProgress.size ≤ maxFramesInProgress
  frame : ∀ c, taken.2 = some c → c.1.frameId = frameId ∧ c.1.stream = stream

theorem takes_none {t : SenderState} (hpending : t.pendingDelivery = s.pendingDelivery)
    (hnext : t.nextDelivery = s.nextDelivery)
    (h : t.framesInProgress.size ≤ maxFramesInProgress) : s.Takes frameId stream (t, none) :=
  ⟨hpending, hnext, h, fun _ hc => by cases hc⟩

theorem takes_putFrame {t : SenderState} (hpending : t.pendingDelivery = s.pendingDelivery)
    (hnext : t.nextDelivery = s.nextDelivery) {tried : FrameAssembly × Bool}
    (h : t.framesInProgress.size ≤ maxFramesInProgress)
    (hput : (t.framesInProgress.insert frameId tried.1).size ≤ maxFramesInProgress) :
    s.Takes frameId stream (t.putFrame frameId tried stream) := by
  rw [putFrame]
  split
  · refine ⟨hpending, hnext, Assoc.size_remove_le.trans h, fun c hc => ?_⟩
    cases hc
    exact ⟨rfl, rfl⟩
  · exact takes_none hpending hnext hput

variable (now) in
theorem takes_processPacket (h : s.framesInProgress.size ≤ maxFramesInProgress)
    (pkt : UdpVideoPacket) (pick : UInt32) :
    s.Takes pkt.frameId pkt.stream (s.processPacket pkt now pick) := by
  rw [processPacket]
  dsimp only
  split
  · exact takes_none rfl rfl h
  · -- A new frame finds room: the oldest goes if there are too many.
    refine takes_putFrame ?_ ?_ ?_ ?_
    · rfl
    · rfl
    · exact Assoc.size_removeAny_le.trans h
    · exact Assoc.size_insert_victim (by decide) h

variable (now) in
theorem takes_processFecPacket (h : s.framesInProgress.size ≤ maxFramesInProgress)
    (pkt : UdpFecPacket) : s.Takes pkt.frameId pkt.stream (s.processFecPacket pkt now) := by
  rw [processFecPacket]
  dsimp only
  split
  · exact takes_none rfl rfl h
  · rename_i frame hframe
    refine takes_putFrame ?_ ?_ ?_ ?_
    · rfl
    · rfl
    · exact h
    · exact (Assoc.size_insert_of_mem (Option.isSome_of_eq_some hframe)).le.trans h

/-- What passes the gate, and the held frames freed by it. -/
def pass (s : SenderState) (frame : ReassembledFrame) : SenderState × List ReassembledFrame :=
  (s.flushPending.1, frame :: s.flushPending.2)

/-- What the gate does with a complete frame. -/
inductive AtGate (s : SenderState) (f : ReassembledFrame) (now : Instant) (afterSilence : Bool) :
    SenderState × List ReassembledFrame → Prop
  | dropped : AtGate s f now afterSilence (s, [])
  /-- It waits for those before it. -/
  | held (n : UInt32) (hdelta : f.isKeyframe = false) (hnext : s.nextDelivery = some n)
      (hne : f.frameId ≠ n) (hbefore : seqBefore f.frameId n = false)
      (hroom : s.pendingDelivery.size < maxPendingDelivery) :
      AtGate s f now afterSilence
        ({ s with pendingDelivery := s.pendingDelivery.insert f.frameId (now, f) }, [])
  | keyframe (hkey : f.isKeyframe = true) (hlate : s.late f.frameId afterSilence = false) :
      AtGate s f now afterSilence (pass
        { s with
          pendingDelivery := s.pendingDelivery.retain fun k _ => seqBefore f.frameId k
          nextDelivery := some (f.frameId + 1)
          hasKeyframe := true } f)
  | next (hdelta : f.isKeyframe = false) (hnext : s.nextDelivery = some f.frameId) :
      AtGate s f now afterSilence (pass { s with nextDelivery := some (f.frameId + 1) } f)

theorem atGate (s : SenderState) (f : ReassembledFrame) (now : Instant) (afterSilence : Bool) :
    AtGate s f now afterSilence (s.acceptCompleted f now afterSilence) := by
  rw [acceptCompleted]
  dsimp only
  by_cases hkey : f.isKeyframe = true
  · rw [if_pos hkey]
    by_cases hlate : s.late f.frameId afterSilence = true
    · rw [if_pos hlate]
      exact .dropped
    · rw [if_neg hlate]
      exact .keyframe hkey (Bool.eq_false_iff.2 hlate)
  · rw [if_neg hkey]
    have hdelta := Bool.eq_false_iff.2 hkey
    split
    · exact .dropped
    · rename_i n hnext
      by_cases hid : f.frameId = n
      · rw [if_pos hid]
        exact .next hdelta (hid ▸ hnext)
      · rw [if_neg hid]
        by_cases hbefore : seqBefore f.frameId n = true
        · rw [if_pos hbefore]
          exact .dropped
        · rw [if_neg hbefore]
          by_cases hroom : s.pendingDelivery.size < maxPendingDelivery
          · rw [if_pos hroom]
            exact .held n hdelta hnext hid (Bool.eq_false_iff.2 hbefore) hroom
          · rw [if_neg hroom]
            exact .dropped

theorem flushPending_of_held {n : UInt32} {held : Instant × ReassembledFrame}
    (hnext : s.nextDelivery = some n) (hheld : s.pendingDelivery.get? n = some held) :
    s.flushPending = pass
      { s with
        pendingDelivery := s.pendingDelivery.remove n
        nextDelivery := some (n + 1) } held.2 := by
  rw [flushPending]
  split
  · rename_i hnone
    cases hnone.symm.trans hnext
  · rename_i n' hn'
    cases hn'.symm.trans hnext
    split
    · rename_i held' hheld'
      cases hheld'.symm.trans hheld
      rfl
    · rename_i hnone
      cases hnone.symm.trans hheld

theorem flushPending_of_gap {n : UInt32} (hnext : s.nextDelivery = some n)
    (hheld : s.pendingDelivery.get? n = none) : s.flushPending = (s, []) := by
  rw [flushPending]
  split
  · rfl
  · rename_i n' hn'
    cases hn'.symm.trans hnext
    split
    · rename_i held' hheld'
      cases hheld'.symm.trans hheld
    · rfl

variable (s) in
theorem flushPending_rule (I : SenderState → List ReassembledFrame → Prop)
    (hstep : ∀ s out n held, I s out → s.nextDelivery = some n →
      s.pendingDelivery.get? n = some held →
      I { s with
            pendingDelivery := s.pendingDelivery.remove n
            nextDelivery := some (n + 1) } (out ++ [held.2]))
    (out : List ReassembledFrame) (h : I s out) :
    I s.flushPending.1 (out ++ s.flushPending.2) := by
  induction s using flushPending.induct generalizing out with
  | case1 s hnone =>
    have hempty : s.flushPending = (s, []) := by
      rw [flushPending]
      split
      · rfl
      · rename_i n hn
        cases hn.symm.trans hnone
    rw [hempty, List.append_nil]
    exact h
  | case2 s n hnext held hheld hless ih =>
    have hgone := ih _ (hstep s out n held h hnext hheld)
    rw [List.append_assoc] at hgone
    rw [flushPending_of_held hnext hheld]
    exact hgone
  | case3 s n hnext hheld =>
    rw [flushPending_of_gap hnext hheld, List.append_nil]
    exact h

end SenderState

/-- The receiver, and its times and limits. -/
structure VideoReceiver where
  senders : Assoc SenderId SenderState := .empty
  nackTimeout : Duration := fromMillis 50
  staleTimeout : Duration := staleFrameTimeout
  maxFrameAge : Duration := Media.maxFrameAge
  maxNackRetries : Nat := 3
  pliIntervalCold : Duration := fromMillis 500
  pliIntervalWarm : Duration := fromSecs 1

/-- The choices among several least recent ones. -/
structure Picks where
  sender : SenderId := []
  frame : UInt32 := 0

namespace VideoReceiver

variable (r : VideoReceiver)

/-- A sender's state; a new one may replace that silent longest. -/
def senderEntry (id : SenderId) (now : Instant) (pick : SenderId) :
    Assoc SenderId SenderState × SenderState :=
  let senders := r.senders.removeAny (r.senders.victim maxSenders (·.lastActivity) pick id)
  (senders, (senders.get? id).getD { id := senderIdStr id, lastActivity := now })

/-- A packet that does not fit its frame, or of too large a frame. -/
def malformed (pkt : UdpVideoPacket) : Bool :=
  pkt.totalPackets.toNat = 0 || pkt.totalPackets.toNat ≤ pkt.packetIndex.toNat ||
    maxPacketsPerFrame < pkt.totalPackets.toNat

/-- A video packet: the frames that become deliverable. -/
def processPacket (pkt : UdpVideoPacket) (now : Instant) (picks : Picks) :
    VideoReceiver × List ReassembledFrame :=
  if malformed pkt then (r, [])
  else
    let entry := r.senderEntry pkt.senderId now picks.sender
    let out := SenderState.deliver (entry.2.processPacket pkt now picks.frame) now
    ({ r with senders := entry.1.insert pkt.senderId out.1 }, out.2)

/-- A FEC packet: the frames that become deliverable. -/
def processFecPacket (pkt : UdpFecPacket) (now : Instant) :
    VideoReceiver × List ReassembledFrame :=
  match r.senders.get? pkt.senderId with
  | none => (r, [])
  | some s =>
    let out := SenderState.deliver (s.processFecPacket pkt now) now
    ({ r with senders := r.senders.insert pkt.senderId out.1 }, out.2)

/-! ## Maintenance -/

/-- The packets asked for in a look, and if a keyframe is needed instead. -/
structure Nacks where
  tracking : Assoc (UInt32 × Nat) (Instant × Nat)
  missing : List Nat := []
  needPli : Bool

/-- A missing packet is asked for at times, not too often. -/
def nackPacket (now : Instant) (frameId : UInt32) (nacks : Nacks) (i : Nat) : Nacks :=
  let key := (frameId, i)
  let entry := (nacks.tracking.get? key).getD (now - r.nackTimeout - fromMillis 1, 0)
  if r.maxNackRetries ≤ entry.2 then
    { nacks with tracking := nacks.tracking.insert key entry, needPli := true }
  else if r.nackTimeout < durationSince now entry.1 then
    { nacks with
      tracking := nacks.tracking.insert key (now, entry.2 + 1)
      missing := nacks.missing ++ [i] }
  else { nacks with tracking := nacks.tracking.insert key entry }

/-- The packets to look for: not those above the highest, unless nothing came for a while. -/
def lookedFor (now : Instant) (a : FrameAssembly) : List Nat :=
  if r.nackTimeout < durationSince now a.createdAt then
    let stalled := r.nackTimeout < durationSince now a.lastPacketAt
    ((List.range a.totalPackets).takeWhile fun i => i ≤ a.highestIndex || stalled).filter fun i =>
      (a.size? i).isNone
  else []

/-- The look at a frame in progress. -/
def nackFrame (now : Instant) (target : Bytes) (found : Nacks × List NackRequest)
    (e : UInt32 × FrameAssembly) : Nacks × List NackRequest :=
  let nacks := (r.lookedFor now e.2).foldl (r.nackPacket now e.1) { found.1 with missing := [] }
  (nacks, if nacks.missing.isEmpty then found.2
    else found.2 ++ [{ target, frameId := e.1, missing := nacks.missing }])

/-- The look at a sender: its requests, and if a keyframe is asked for. -/
def checkSender (now : Instant) (s : SenderState) : SenderState × List NackRequest × Bool :=
  let s := s.expirePending now
  let found := s.framesInProgress.rows.foldl (r.nackFrame now s.id)
    ({ tracking := s.nackTracking, needPli := s.wantPli }, [])
  let s := { s with nackTracking := found.1.tracking }
  let interval := if s.hasKeyframe then r.pliIntervalWarm else r.pliIntervalCold
  if found.1.needPli && s.lastPli.all fun t => interval ≤ durationSince now t then
    ({ s with lastPli := some now, wantPli := false }, found.2, true)
  else (s, found.2, false)

theorem checkSender_eq (now : Instant) (s : SenderState) : ∃ nackTracking lastPli wantPli,
    (r.checkSender now s).1 = { s.expirePending now with nackTracking, lastPli, wantPli } := by
  rw [checkSender]
  dsimp only
  generalize (if (s.expirePending now).hasKeyframe then r.pliIntervalWarm else r.pliIntervalCold) =
    interval
  split
  · exact ⟨_, _, _, rfl⟩
  · exact ⟨_, _, _, rfl⟩

/-- Gives up overdue gaps, and tells what to ask for. -/
def checkMissing (now : Instant) : VideoReceiver × List NackRequest × List Bytes :=
  ({ r with senders := r.senders.mapValues fun _ s => (r.checkSender now s).1 },
    r.senders.rows.flatMap fun e => (r.checkSender now e.2).2.1,
    (r.senders.rows.filter fun e => (r.checkSender now e.2).2.2).map (·.2.id))

/-- Frames in progress that are too old go. -/
def cleanupSender (now : Instant) (s : SenderState) : SenderState :=
  let frames := s.framesInProgress.retain fun _ a =>
    !(r.staleTimeout ≤ durationSince now a.lastPacketAt ||
      r.maxFrameAge ≤ durationSince now a.createdAt)
  { s with
    framesInProgress := frames
    nackTracking := s.nackTracking.retain fun key _ => (frames.get? key.1).isSome }

/-- Drops what is stale, and senders gone quiet. -/
def cleanupStale (now : Instant) : VideoReceiver :=
  { r with
    senders := (r.senders.mapValues fun _ s => r.cleanupSender now s).retain fun _ s =>
      durationSince now s.lastActivity < senderIdleTimeout }

end VideoReceiver
end Decibell.Media
