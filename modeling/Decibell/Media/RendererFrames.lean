import Decibell.Lib.Chunks
import Decibell.Media.FrameCompletion
import Decibell.Media.FrameCrypto

/-!
# Frames of the renderer

A frame that the renderer has encoded is sent with the description of its decoder in front, if it is
a keyframe of a codec that has one; it is sealed, in an encrypted channel, and cut into packets. The
receiver puts the packets together, opens the frame and takes the description off again.
-/

namespace Decibell.Media

open Lib FrameAssembly List

variable {Key : Type}

/-- A tag that is in front of a description. -/
def wireDescriptionMagic : Bytes := [0xDE, 0xC1, 0xBE, 0x11]

/-- A frame as the renderer submits it. -/
structure SendVideoFrameArgs where
  codec : UInt8
  keyframe : Bool
  data : Bytes
  description : Option Bytes

/-- A keyframe of HEVC or AV1. -/
def hasDescription (keyframe : Bool) (codec : UInt8) : Bool := keyframe && (codec = 3 || codec = 4)

/-- The bytes that go over the wire. -/
def SendVideoFrameArgs.wire (args : SendVideoFrameArgs) : Bytes :=
  match args.description with
  | some desc =>
    if hasDescription args.keyframe args.codec then
      wireDescriptionMagic ++ beBytes 4 desc.length ++ desc ++ args.data
    else args.data
  | none => args.data

/-! ## The sender -/

/-- A stream's sender; in an encrypted channel it has the keys. -/
structure VideoSender (Key : Type) where
  senderId : Bytes
  nextFrameId : UInt32
  streamSalt : UInt32
  ring : Option (KeyRing Key)

def SentFrame.packets (f : SentFrame) : List FramePacket :=
  perChunk udpMaxPayload (fun i chunk => [f.videoPacket i chunk]) 0 f.data

theorem length_nameBytes (username : Bytes) : (nameBytes username).length = senderIdSize := by
  rw [nameBytes, length_append, length_take, length_replicate]
  omega

namespace VideoSender

variable (v : VideoSender Key)

/-- A frame as it is cut into packets. -/
def frame (isKeyframe : Bool) (codec : UInt8) (data : Bytes) : SentFrame where
  senderId := nameBytes v.senderId
  frameId := v.nextFrameId
  isKeyframe
  codec
  data
  id_length := length_nameBytes v.senderId

/-- The data cut into packets, sealed in an encrypted channel. -/
def payload (cipher : FrameCipher Key) (isKeyframe : Bool) (codec : UInt8) (data : Bytes) :
    Option Bytes :=
  match v.ring with
  | none => some data
  | some ring => sealVideoFrame cipher ring v.streamSalt v.nextFrameId isKeyframe codec data

/-- The datagrams of a frame. -/
def send (cipher : FrameCipher Key) (isKeyframe : Bool) (codec : UInt8) (data : Bytes) :
    VideoSender Key × List Bytes :=
  ({ v with nextFrameId := v.nextFrameId + 1 },
    match v.payload cipher isKeyframe codec data with
    | none => []
    | some payload =>
      (v.frame isKeyframe codec payload).packets.map (FramePacket.toBytes v.ring.isSome))

end VideoSender

/-! ## The receiver -/

/-- The receiver: the streamers watched and displayed, and the keys. -/
structure Viewer (Key : Type) where
  isWatched : Bytes → Bool
  isStreamFrameSink : Bytes → Bool
  ring : Option (KeyRing Key)

/-- Takes the description off a keyframe. -/
def stripKeyframeDescription (frame : ReassembledFrame) : ReassembledFrame :=
  if hasDescription frame.isKeyframe frame.codec = true ∧
      wireDescriptionMagic.length + 4 ≤ frame.data.length ∧
      frame.data.take wireDescriptionMagic.length = wireDescriptionMagic then
    let len := ofBeBytes ((frame.data.drop wireDescriptionMagic.length).take 4)
    let payloadOff := wireDescriptionMagic.length + 4
    if 0 < len ∧ len < 1024 ∧ payloadOff + len ≤ frame.data.length then
      { frame with
        description := some ((frame.data.drop payloadOff).take len)
        data := frame.data.drop (payloadOff + len) }
    else frame
  else frame

/-- What the renderer is handed of a reassembled frame. -/
def Viewer.emitFrame (viewer : Viewer Key) (cipher : FrameCipher Key) (now : Instant)
    (frame : ReassembledFrame) : Option ReassembledFrame :=
  if !viewer.isWatched frame.streamerId then none
  else if !viewer.isStreamFrameSink frame.streamerId then none
  else
    match viewer.ring with
    | none => some (stripKeyframeDescription frame)
    | some ring =>
      (openVideoFrame cipher ring now frame.streamerId frame.frameId frame.isKeyframe frame.codec
        frame.data).map fun plain => stripKeyframeDescription { frame with data := plain }

/-- A streamer's datagram, and which oldest frame may go for it. -/
structure Datagram where
  now : Instant
  bytes : Bytes
  pick : UInt32

/-- The first frame a streamer's datagrams complete, at the gate. -/
def SenderState.completes (encrypted : Bool) (s : SenderState) :
    List Datagram → Option (SenderState × ReassembledFrame × Bool)
  | [] => none
  | d :: rest =>
    match parseDatagram encrypted d.bytes with
    | none => s.completes encrypted rest
    | some (.video pkt) =>
      if VideoReceiver.malformed pkt then s.completes encrypted rest
      else
        match s.processPacket pkt d.now d.pick with
        | (s, some completed) => some (s, completed)
        | (s, none) => s.completes encrypted rest
    | some (.fec pkt) =>
      match s.processFecPacket pkt d.now with
      | (s, some completed) => some (s, completed)
      | (s, none) => s.completes encrypted rest

/-! ## What is sent -/

section Sent

variable {f : SentFrame} {p : FramePacket}

theorem mem_perChunk_packets {i : Nat} {rest : Bytes}
    (hrest : rest = f.data.drop (i * udpMaxPayload)) :
    p ∈ perChunk udpMaxPayload (fun i chunk => [f.videoPacket i chunk]) i rest ↔
      ∃ j, i ≤ j ∧ j < f.totalPackets ∧ p = f.videoPacket j (f.fragment j) := by
  induction hleft : f.totalPackets - i generalizing i rest with
  | zero =>
    have hnil : rest = [] := by
      rw [hrest, drop_eq_nil_iff, ← SentFrame.totalPackets_le_iff]
      omega
    rw [hnil, perChunk_nil]
    constructor
    · exact fun h => absurd h not_mem_nil
    · rintro ⟨j, hij, hj, -⟩
      omega
  | succ n ih =>
    have hne : rest ≠ [] := by
      rw [hrest, Ne, drop_eq_nil_iff, ← SentFrame.totalPackets_le_iff]
      omega
    have hnext : rest.drop udpMaxPayload = f.data.drop ((i + 1) * udpMaxPayload) := by
      rw [hrest, drop_drop, Nat.add_mul, Nat.one_mul]
    have hchunk : rest.take udpMaxPayload = f.fragment i := by rw [hrest, SentFrame.fragment]
    rw [perChunk_of_ne_nil (by decide) hne, singleton_append, mem_cons,
      ih hnext (by omega), hchunk]
    constructor
    · rintro (rfl | ⟨j, hij, hj, rfl⟩)
      · exact ⟨i, Nat.le_refl i, by omega, rfl⟩
      · exact ⟨j, Nat.le_of_succ_le hij, hj, rfl⟩
    · rintro ⟨j, hij, hj, rfl⟩
      rcases Nat.eq_or_lt_of_le hij with rfl | hlt
      · exact .inl rfl
      · exact .inr ⟨j, hlt, hj, rfl⟩

theorem mem_packets :
    p ∈ f.packets ↔ ∃ i, i < f.totalPackets ∧ p = f.videoPacket i (f.fragment i) := by
  rw [SentFrame.packets, mem_perChunk_packets (by rw [Nat.zero_mul, drop_zero])]
  exact exists_congr fun i => and_iff_right (Nat.zero_le i)

theorem mem_fragmentAndSend_of_mem_packets (h : p ∈ f.packets) : p ∈ f.fragmentAndSend :=
  SentFrame.mem_fragmentAndSend.2 (.inl (mem_packets.1 h))

theorem length_packets : f.packets.length = f.totalPackets := by
  have hfrom {i n : Nat} {rest : Bytes} (hrest : rest = f.data.drop (i * udpMaxPayload))
      (hleft : f.totalPackets - i = n) :
      (perChunk udpMaxPayload (fun i chunk => [f.videoPacket i chunk]) i rest).length = n := by
    induction n generalizing i rest with
    | zero =>
      rw [hrest, drop_eq_nil_iff.2 (SentFrame.totalPackets_le_iff.1 (by omega)), perChunk_nil]
      rfl
    | succ n ih =>
      have hne : rest ≠ [] := by
        rw [hrest, Ne, drop_eq_nil_iff, ← SentFrame.totalPackets_le_iff]
        omega
      rw [perChunk_of_ne_nil (by decide) hne, length_append, length_singleton,
        ih (by rw [hrest, drop_drop, Nat.add_mul, Nat.one_mul]) (by omega), Nat.add_comm]
  exact hfrom (by rw [Nat.zero_mul, drop_zero]) rfl

end Sent

/-! ## What is completed -/

section Completed

variable {f : SentFrame} {s : SenderState} {packets : List FramePacket}

/-- An assembly keeps the flags of its first packet. -/
def SameFlags (a b : FrameAssembly) : Prop := a.isKeyframe = b.isKeyframe ∧ a.codec = b.codec

theorem sameFlags_store (a : FrameAssembly) (i : Nat) (payload : Bytes) :
    SameFlags (a.store i payload) a := by
  rw [FrameAssembly.store]
  split <;> exact ⟨rfl, rfl⟩

theorem sameFlags_insert (a : FrameAssembly) (i : Nat) (payload : Bytes) (stream : Nat)
    (now : Instant) : SameFlags (a.insert i payload stream now) a := by
  rw [FrameAssembly.insert]
  split
  · exact ⟨rfl, rfl⟩
  · exact sameFlags_store a i payload

theorem sameFlags_tryFecRecovery (a : FrameAssembly) : SameFlags a.tryFecRecovery.1 a := by
  refine tryFecRecovery_induct (P := fun b => SameFlags b a) (fun b gi b' hb hgroup => ?_)
    ⟨rfl, rfl⟩
  obtain ⟨g, m, -, -, -, -, rfl⟩ := recoverGroup_eq_some hgroup
  obtain ⟨hkey, hcodec⟩ := sameFlags_store b m ((b.rebuilt g m).1.take (b.rebuilt g m).2)
  exact ⟨hkey.trans hb.1, hcodec.trans hb.2⟩

/-- The frame that a complete assembly gives. -/
def completedFrame (id : Bytes) (pkt : UdpVideoPacket) (a : FrameAssembly) : ReassembledFrame where
  frameId := pkt.frameId
  data := a.intoData
  isKeyframe := a.isKeyframe
  streamerId := id
  codec := a.codec
  streams := pkt.stream :: a.streams

theorem putFrame_spec (s : SenderState) (pkt : UdpVideoPacket) (tried : FrameAssembly × Bool) :
    (s.putFrame pkt.frameId tried pkt.stream).1.id = s.id ∧
    (s.putFrame pkt.frameId tried pkt.stream).1.nextDelivery = s.nextDelivery ∧
    (s.putFrame pkt.frameId tried pkt.stream).2.map (·.1) =
      if tried.2 then some (completedFrame s.id pkt tried.1) else none := by
  rw [SenderState.putFrame]
  by_cases hcomplete : tried.2 = true
  · rw [if_pos hcomplete, if_pos hcomplete]
    exact ⟨rfl, rfl, rfl⟩
  · rw [if_neg hcomplete, if_neg hcomplete]
    exact ⟨rfl, rfl, rfl⟩

theorem processPacket_frame {pkt : UdpVideoPacket} {now : Instant} {pick : UInt32}
    (h : ¬(!pkt.isKeyframe && s.nextDelivery.any (seqBefore pkt.frameId)) = true) :
    ∃ tried, tried = takeVideo (s.framesInProgress.get? pkt.frameId) pkt now
        (restartSilence ≤ durationSince now s.lastActivity) ∧
      (s.processPacket pkt now pick).1.framesInProgress.get? pkt.frameId = (settle tried).1 ∧
      (s.processPacket pkt now pick).1.id = s.id ∧
      (s.processPacket pkt now pick).1.nextDelivery = s.nextDelivery ∧
      (s.processPacket pkt now pick).2.map (·.1) =
        if tried.2 then some (completedFrame s.id pkt tried.1) else none := by
  refine ⟨_, rfl, congrArg Prod.fst (SenderState.processPacket_settles h), ?_⟩
  have hkept : (s.framesInProgress.removeAny (s.framesInProgress.victim maxFramesInProgress
      (·.createdAt) pick pkt.frameId)).get? pkt.frameId = s.framesInProgress.get? pkt.frameId :=
    Assoc.get?_removeAny_victim
  rw [SenderState.processPacket, ← hkept]
  dsimp only
  rw [if_neg h]
  exact putFrame_spec _ pkt _

theorem sameFlags_takeVideo {a : Option FrameAssembly} {pkt : UdpVideoPacket}
    (h : ∀ frame ∈ a, frame.isKeyframe = pkt.isKeyframe ∧ frame.codec = pkt.codec) (now : Instant)
    (afterSilence : Bool) : (takeVideo a pkt now afterSilence).1.isKeyframe = pkt.isKeyframe ∧
      (takeVideo a pkt now afterSilence).1.codec = pkt.codec := by
  have hbegun : (a.getD (.new pkt.totalPackets.toNat pkt.isKeyframe pkt.codec afterSilence
      now)).isKeyframe = pkt.isKeyframe ∧ (a.getD (.new pkt.totalPackets.toNat pkt.isKeyframe
        pkt.codec afterSilence now)).codec = pkt.codec := by
    cases a with
    | none => exact ⟨rfl, rfl⟩
    | some frame => exact h frame rfl
  rw [takeVideo]
  generalize a.getD (.new pkt.totalPackets.toNat pkt.isKeyframe pkt.codec afterSilence now) = b at *
  obtain ⟨hkey, hcodec⟩ := sameFlags_insert b pkt.packetIndex.toNat pkt.payload pkt.stream now
  split
  · exact ⟨hkey.trans hbegun.1, hcodec.trans hbegun.2⟩
  · obtain ⟨hkey', hcodec'⟩ := sameFlags_tryFecRecovery
      (b.insert pkt.packetIndex.toNat pkt.payload pkt.stream now)
    exact ⟨(hkey'.trans hkey).trans hbegun.1, (hcodec'.trans hcodec).trans hbegun.2⟩

/-- A frame as it comes out of its packets. -/
structure Comes (f : SentFrame) (id : Bytes) (r : ReassembledFrame) : Prop where
  frameId : r.frameId = f.frameId
  data : r.data = f.data
  isKeyframe : r.isKeyframe = f.isKeyframe
  codec : r.codec = f.codec
  streamerId : r.streamerId = id
  description : r.description = none

theorem completes_spec (hsmall : f.totalPackets ≤ maxPacketsPerFrame) {encrypted : Bool}
    {rest : List FramePacket} {arrivals : List Datagram}
    (hawaits : Awaits f packets (s.framesInProgress.get? f.frameId))
    (hflags : ∀ a ∈ s.framesInProgress.get? f.frameId,
      a.isKeyframe = f.isKeyframe ∧ a.codec = f.codec)
    (hlate : ¬(!f.isKeyframe && s.nextDelivery.any (seqBefore f.frameId)) = true)
    (hrest : ∀ p ∈ rest, p ∈ f.packets)
    (harrivals : arrivals.map (·.bytes) = rest.map (·.toBytes encrypted))
    (hall : f.Recoverable (packets ++ rest)) :
    ∃ taken r afterSilence, s.completes encrypted arrivals = some (taken, r, afterSilence) ∧
      taken.nextDelivery = s.nextDelivery ∧ Comes f s.id r := by
  induction rest generalizing packets s arrivals with
  | nil =>
    rw [append_nil] at hall
    exact absurd hall hawaits.1
  | cons p rest ih =>
    obtain ⟨d, later, rfl, hd, hlater⟩ := map_eq_cons_iff.1 harrivals
    have hp := hrest p mem_cons_self
    obtain ⟨i, hi, rfl⟩ := mem_packets.1 hp
    have hsent := mem_fragmentAndSend_of_mem_packets hp
    obtain ⟨pkt, hpkt⟩ : ∃ pkt, f.videoPacket i (f.fragment i) = .video pkt := ⟨_, rfl⟩
    have hparse : parseDatagram encrypted d.bytes = some (.video pkt) := by
      rw [hd, parseDatagram_toBytes (SentFrame.wellFormed_of_mem hsent), hpkt]
    have hfields : pkt.frameId = f.frameId ∧ pkt.isKeyframe = f.isKeyframe ∧
        pkt.codec = f.codec := by
      obtain rfl := FramePacket.video.inj hpkt
      exact ⟨rfl, rfl, rfl⟩
    obtain ⟨hid, hkey, hcodec⟩ := hfields
    have hwhole := malformed_of_fragment hsmall hi hpkt.symm
    obtain ⟨tried, htried, hget, hsame, hnext, hout⟩ := @processPacket_frame s pkt d.now d.pick
      (by rw [hkey, hid]; exact hlate)
    rw [hid] at htried hget
    obtain ⟨hreceived, hiff, hdone⟩ := htried ▸ tried_takeVideo hsmall hawaits hi hpkt.symm d.now
      (restartSilence ≤ durationSince d.now s.lastActivity)
    have hflags' : tried.1.isKeyframe = pkt.isKeyframe ∧ tried.1.codec = pkt.codec := by
      rw [htried]
      exact sameFlags_takeVideo (by rw [hkey, hcodec]; exact hflags) d.now _
    rw [SenderState.completes, hparse]
    dsimp only
    rw [if_neg (by rw [hwhole]; exact Bool.false_ne_true)]
    rcases hprocess : s.processPacket pkt d.now d.pick with ⟨s', taken⟩
    rw [hprocess] at hget hsame hnext hout
    dsimp only at hget hsame hnext hout
    by_cases hcomplete : tried.2 = true
    · -- The packet completes the frame.
      rw [if_pos hcomplete] at hout
      obtain ⟨completed, rfl, hr⟩ := Option.map_eq_some_iff.1 hout
      exact ⟨s', completed.1, completed.2, rfl, hnext, hr ▸
        { frameId := hid
          data := intoData_eq hreceived.faithful (hdone hcomplete)
          isKeyframe := hflags'.1.trans hkey
          codec := hflags'.2.trans hcodec
          streamerId := rfl
          description := rfl }⟩
    · rw [if_neg hcomplete] at hout
      obtain rfl := Option.map_eq_none_iff.1 hout
      have hprogress : s'.framesInProgress.get? f.frameId = some tried.1 := by
        rw [hget, settle, if_neg hcomplete]
      have hcame : packets ++ [.video pkt] ++ rest =
          packets ++ f.videoPacket i (f.fragment i) :: rest := by
        rw [hpkt, append_assoc, singleton_append]
      rw [← hsame, ← hnext]
      refine @ih s' (packets ++ [.video pkt]) later ?_ ?_ (by rw [hnext]; exact hlate)
        (fun q hq => hrest q (mem_cons_of_mem _ hq)) hlater (hcame ▸ hall)
      · rw [hprogress]
        exact ⟨fun hrec => hcomplete (hiff.2 hrec), hreceived⟩
      · intro a ha
        rw [hprogress] at ha
        obtain rfl := Option.some.inj ha
        exact ⟨hflags'.1.trans hkey, hflags'.2.trans hcodec⟩

theorem exists_packets {encrypted : Bool} {datagrams : List Bytes} {ps : List FramePacket}
    (h : ∀ d ∈ datagrams, d ∈ ps.map (FramePacket.toBytes encrypted)) :
    ∃ rest : List FramePacket, (∀ p ∈ rest, p ∈ ps) ∧
      datagrams = rest.map (FramePacket.toBytes encrypted) := by
  induction datagrams with
  | nil => exact ⟨[], fun _ hp => absurd hp not_mem_nil, rfl⟩
  | cons d datagrams ih =>
    obtain ⟨rest, hrest, rfl⟩ := ih fun d' hd' => h d' (mem_cons_of_mem d hd')
    obtain ⟨p, hp, rfl⟩ := mem_map.1 (h d mem_cons_self)
    refine ⟨p :: rest, fun q hq => ?_, rfl⟩
    rcases mem_cons.1 hq with rfl | hq
    · exact hp
    · exact hrest q hq

theorem completes_of_all (hsmall : f.totalPackets ≤ maxPacketsPerFrame)
    (hpos : 0 < f.totalPackets) {encrypted : Bool} {arrivals : List Datagram}
    (hnew : s.framesInProgress.get? f.frameId = none)
    (hlate : ¬(!f.isKeyframe && s.nextDelivery.any (seqBefore f.frameId)) = true)
    (hsent : ∀ d ∈ arrivals, d.bytes ∈ f.packets.map (FramePacket.toBytes encrypted))
    (hall : ∀ b ∈ f.packets.map (FramePacket.toBytes encrypted), ∃ d ∈ arrivals, d.bytes = b) :
    ∃ taken r afterSilence, s.completes encrypted arrivals = some (taken, r, afterSilence) ∧
      taken.nextDelivery = s.nextDelivery ∧ Comes f s.id r := by
  have hsent' :
      ∀ b ∈ arrivals.map (·.bytes), b ∈ f.packets.map (FramePacket.toBytes encrypted) := by
    intro b hb
    obtain ⟨d, hd, rfl⟩ := mem_map.1 hb
    exact hsent d hd
  obtain ⟨rest, hrest, harrivals⟩ := exists_packets hsent'
  refine @completes_spec f s [] hsmall _ _ _ ?_ ?_ hlate hrest harrivals fun i hi => ?_
  · rw [hnew]
    exact ⟨not_recoverable_nil hpos, rfl⟩
  · rw [hnew]
    exact fun a ha => nomatch ha
  · -- The fragment is among what came: its datagram is of no other packet.
    have hp : f.videoPacket i (f.fragment i) ∈ f.packets := mem_packets.2 ⟨i, hi, rfl⟩
    obtain ⟨d, hd, hbytes⟩ := hall _ (mem_map_of_mem hp)
    have hmem : d.bytes ∈ rest.map (FramePacket.toBytes encrypted) :=
      harrivals ▸ mem_map_of_mem hd
    obtain ⟨q, hq, hqd⟩ := mem_map.1 hmem
    have hsame : q = f.videoPacket i (f.fragment i) := by
      have hwell (p : FramePacket) (hp : p ∈ f.packets) : p.WellFormed :=
        SentFrame.wellFormed_of_mem (mem_fragmentAndSend_of_mem_packets hp)
      have hq' : parseDatagram encrypted (q.toBytes encrypted) = some q :=
        parseDatagram_toBytes (hwell q (hrest q hq))
      rw [hqd, hbytes, parseDatagram_toBytes (hwell _ hp)] at hq'
      exact (Option.some.inj hq').symm
    exact .there ⟨hi, by rw [nil_append, ← hsame]; exact hq⟩

end Completed

/-! ## The description -/

section Description

variable {args : SendVideoFrameArgs} {r : ReassembledFrame}

/-- The receiver takes descriptions of 1 up to 1023 bytes. -/
def SendVideoFrameArgs.DescriptionFits (args : SendVideoFrameArgs) : Prop :=
  hasDescription args.keyframe args.codec = true → ∀ desc, args.description = some desc →
    0 < desc.length ∧ desc.length < 1024

instance (args : SendVideoFrameArgs) : Decidable args.DescriptionFits :=
  match h : args.description with
  | none => .isTrue fun _ desc hdesc => by rw [h] at hdesc; cases hdesc
  | some desc =>
    decidable_of_iff
      (hasDescription args.keyframe args.codec = true → 0 < desc.length ∧ desc.length < 1024)
      ⟨fun hfits hkey desc' hdesc => by
        rw [h] at hdesc
        cases hdesc
        exact hfits hkey, fun hfits hkey => hfits hkey desc h⟩

theorem wire_of_described {desc : Bytes} (hkey : hasDescription args.keyframe args.codec = true)
    (hdesc : args.description = some desc) : args.wire =
      wireDescriptionMagic ++ (beBytes 4 desc.length ++ (desc ++ args.data)) := by
  rw [SendVideoFrameArgs.wire, hdesc]
  dsimp only
  rw [if_pos hkey, append_assoc, append_assoc]

theorem wire_of_plain
    (h : ¬(hasDescription args.keyframe args.codec = true ∧ args.description.isSome = true)) :
    args.wire = args.data := by
  rw [SendVideoFrameArgs.wire]
  cases hdesc : args.description with
  | none => rfl
  | some desc => exact if_neg fun hkey => h ⟨hkey, by rw [hdesc]; rfl⟩

theorem stripKeyframeDescription_of_plain (hmagic : ¬ wireDescriptionMagic <+: r.data) :
    stripKeyframeDescription r = r := by
  rw [stripKeyframeDescription]
  refine if_neg fun h => hmagic ?_
  rw [prefix_iff_eq_take]
  exact h.2.2.symm

/-- The description in front is taken off if its length is taken, else all stays. -/
theorem stripKeyframeDescription_of_described {desc rest : Bytes}
    (hkey : hasDescription r.isKeyframe r.codec = true) (hlength : desc.length < 256 ^ 4)
    (hdata : r.data = wireDescriptionMagic ++ (beBytes 4 desc.length ++ (desc ++ rest))) :
    stripKeyframeDescription r =
      if 0 < desc.length ∧ desc.length < 1024 then
        { r with description := some desc, data := rest }
      else r := by
  have hmagic : wireDescriptionMagic.length = 4 := rfl
  have htag : r.data.take wireDescriptionMagic.length = wireDescriptionMagic := by
    rw [hdata, take_left' rfl]
  have hdrop : r.data.drop wireDescriptionMagic.length =
      beBytes 4 desc.length ++ (desc ++ rest) := by
    rw [hdata, drop_left' rfl]
  have hlen : ofBeBytes ((r.data.drop wireDescriptionMagic.length).take 4) = desc.length := by
    rw [hdrop, take_left' (length_beBytes 4 _), ofBeBytes_beBytes hlength]
  have hpayload : r.data.drop (wireDescriptionMagic.length + 4) = desc ++ rest := by
    rw [← drop_drop, hdrop, drop_left' (length_beBytes 4 _)]
  have hsize : r.data.length = 8 + desc.length + rest.length := by
    rw [hdata, length_append, length_append, length_append, length_beBytes, hmagic]
    omega
  rw [stripKeyframeDescription, if_pos ⟨hkey, by omega, htag⟩]
  dsimp only
  rw [hlen, ← drop_drop, hpayload, take_left' rfl, drop_left' rfl]
  by_cases hfits : 0 < desc.length ∧ desc.length < 1024
  · rw [if_pos hfits, if_pos ⟨hfits.1, hfits.2, by omega⟩]
  · rw [if_neg hfits, if_neg fun h => hfits ⟨h.1, h.2.1⟩]

/-- A frame is as submitted; an empty description is as good as none. -/
structure AsSubmitted (args : SendVideoFrameArgs) (out : ReassembledFrame) : Prop where
  codec : out.codec = args.codec
  isKeyframe : out.isKeyframe = args.keyframe
  data : out.data = args.data
  description : hasDescription args.keyframe args.codec = true →
    out.description = args.description.filter (!·.isEmpty)

theorem asSubmitted_strip_iff (hcodec : r.codec = args.codec)
    (hkeyframe : r.isKeyframe = args.keyframe) (hdata : r.data = args.wire)
    (hnone : r.description = none) (hmagic : ¬ wireDescriptionMagic <+: args.data)
    (hlength : args.wire.length < 256 ^ 4) :
    AsSubmitted args (stripKeyframeDescription r) ↔ args.DescriptionFits := by
  by_cases h : hasDescription args.keyframe args.codec = true ∧ args.description.isSome = true
  · obtain ⟨hkey, hsome⟩ := h
    obtain ⟨desc, hdesc⟩ := Option.isSome_iff_exists.1 hsome
    rw [wire_of_described hkey hdesc] at hdata hlength
    rw [length_append, length_append, length_append] at hlength
    rw [stripKeyframeDescription_of_described (by rw [hkeyframe, hcodec]; exact hkey) (by omega)
      hdata]
    by_cases hfits : 0 < desc.length ∧ desc.length < 1024
    · have hnonempty : (!desc.isEmpty) = true := by
        rw [Bool.not_eq_true', isEmpty_eq_false_iff, ← length_pos_iff]
        exact hfits.1
      rw [if_pos hfits]
      refine iff_of_true
        { codec := hcodec
          isKeyframe := hkeyframe
          data := rfl
          description := fun _ => by rw [hdesc, Option.filter_some, if_pos hnonempty] }
        fun _ desc' hdesc' => ?_
      obtain rfl := Option.some.inj (hdesc.symm.trans hdesc')
      exact hfits
    · -- The tag and the length stay in front of the bitstream.
      rw [if_neg hfits]
      refine iff_of_false (fun hsub => ?_) fun h => hfits (h hkey desc hdesc)
      have hlong := congrArg List.length (hdata.symm.trans hsub.data)
      rw [length_append, length_append, length_append, length_beBytes] at hlong
      omega
  · rw [wire_of_plain h] at hdata
    rw [stripKeyframeDescription_of_plain (hdata ▸ hmagic)]
    refine iff_of_true
      { codec := hcodec
        isKeyframe := hkeyframe
        data := hdata
        description := fun hkey => ?_ }
      fun hkey desc hdesc => absurd ⟨hkey, hdesc ▸ rfl⟩ h
    have habsent : args.description = none := by
      cases hdesc : args.description with
      | none => rfl
      | some desc => exact absurd ⟨hkey, by rw [hdesc]; rfl⟩ h
    rw [hnone, habsent]
    rfl

end Description

/-! ## From the renderer to the renderer -/

section Arrives

/-- The gate hands on a keyframe in time, and any other frame at the cursor. -/
def SenderState.HandsOn (s : SenderState) (isKeyframe : Bool) (frameId : UInt32) : Prop :=
  if isKeyframe then s.late frameId false = false else s.nextDelivery = some frameId

theorem late_of_not_late {s : SenderState} {frameId : UInt32} (h : s.late frameId false = false)
    (afterSilence : Bool) : s.late frameId afterSilence = false := by
  cases afterSilence with
  | false => exact h
  | true =>
    -- What ends a silence is a restart.
    rw [SenderState.late]
    cases s.nextDelivery with
    | none => rfl
    | some next =>
      dsimp only
      rw [Bool.or_true, Bool.not_true, Bool.and_false]

theorem SenderState.HandsOn.acceptCompleted {s : SenderState} {r : ReassembledFrame}
    (h : s.HandsOn r.isKeyframe r.frameId) (now : Instant) (afterSilence : Bool) :
    ∃ more, (s.acceptCompleted r now afterSilence).2 = r :: more := by
  rw [SenderState.HandsOn] at h
  rw [SenderState.acceptCompleted]
  by_cases hkey : r.isKeyframe = true
  · rw [if_pos hkey] at h
    rw [if_pos hkey, if_neg (by rw [late_of_not_late h]; exact Bool.false_ne_true)]
    exact ⟨_, rfl⟩
  · rw [if_neg hkey] at h
    rw [if_neg hkey, h]
    dsimp only
    rw [if_pos rfl]
    exact ⟨_, rfl⟩

variable (cipher : FrameCipher Key) (sender : VideoSender Key) (viewer : Viewer Key)
  (args : SendVideoFrameArgs)

/-- The streamer of a packet, as a receiver reads it. -/
def VideoSender.streamerId : Bytes := senderIdStr (nameBytes sender.senderId)

/-- The datagrams of a submitted frame. -/
def VideoSender.datagrams : List Bytes := (sender.send cipher args.keyframe args.codec args.wire).2

/-- The viewer watches the stream and displays it. -/
structure Viewer.Shows (id : Bytes) : Prop where
  isWatched : viewer.isWatched id = true
  isStreamFrameSink : viewer.isStreamFrameSink id = true

/-- The channel is not encrypted, or the viewer has the sender's key. -/
def Viewer.Shares (now : Instant) : Prop :=
  match sender.ring, viewer.ring with
  | none, none => True
  | some own, some ring => own.username = sender.streamerId ∧ ring.OpensFor now own
  | _, _ => False

/-- All datagrams of a frame, in any order and number, complete a frame that the renderer gets as
    submitted, at once unless the gate holds it. -/
def VideoSender.Arrives (now : Instant) : Prop :=
  ∀ (s : SenderState) (arrivals : List Datagram), s.id = sender.streamerId →
    s.framesInProgress.get? sender.nextFrameId = none →
    (args.keyframe = true ∨ s.nextDelivery.any (seqBefore sender.nextFrameId) = false) →
    (∀ d ∈ arrivals, d.bytes ∈ sender.datagrams cipher args) →
    (∀ b ∈ sender.datagrams cipher args, ∃ d ∈ arrivals, d.bytes = b) →
    ∃ taken r afterSilence,
      s.completes sender.ring.isSome arrivals = some (taken, r, afterSilence) ∧
      (s.HandsOn args.keyframe sender.nextFrameId →
        ∃ more, (taken.acceptCompleted r now afterSilence).2 = r :: more) ∧
      ∃ out, viewer.emitFrame cipher now r = some out ∧ AsSubmitted args out

variable {cipher sender viewer args} {now : Instant}

theorem exists_payload (h : 0 < (sender.datagrams cipher args).length) :
    ∃ payload, sender.payload cipher args.keyframe args.codec args.wire = some payload ∧
      sender.datagrams cipher args = (sender.frame args.keyframe args.codec payload).packets.map
        (FramePacket.toBytes sender.ring.isSome) := by
  rw [VideoSender.datagrams, VideoSender.send] at h ⊢
  cases hpayload : sender.payload cipher args.keyframe args.codec args.wire with
  | none =>
    rw [hpayload] at h
    exact absurd h (Nat.lt_irrefl 0)
  | some payload => exact ⟨payload, rfl, rfl⟩

theorem length_le_payload (hcipher : cipher.Correct) {payload data : Bytes} {isKeyframe : Bool}
    {codec : UInt8} (h : sender.payload cipher isKeyframe codec data = some payload) :
    data.length ≤ payload.length := by
  rw [VideoSender.payload] at h
  cases hring : sender.ring with
  | none =>
    rw [hring] at h
    obtain rfl := Option.some.inj h
    exact Nat.le_refl _
  | some ring =>
    rw [hring] at h
    have hsealed : payload.length = data.length + videoSealOverhead :=
      length_sealVideoFrame hcipher h
    omega

theorem emitFrame_of_comes (hcipher : cipher.Correct) (hshows : viewer.Shows sender.streamerId)
    (hshares : viewer.Shares sender now) {isKeyframe : Bool} {codec : UInt8}
    {data payload : Bytes} (hpayload : sender.payload cipher isKeyframe codec data = some payload)
    {r : ReassembledFrame}
    (h : Comes (sender.frame isKeyframe codec payload) sender.streamerId r) :
    viewer.emitFrame cipher now r = some (stripKeyframeDescription { r with data }) := by
  have hwatched : (!viewer.isWatched r.streamerId) = false := by
    rw [h.streamerId, hshows.isWatched]
    rfl
  have hsink : (!viewer.isStreamFrameSink r.streamerId) = false := by
    rw [h.streamerId, hshows.isStreamFrameSink]
    rfl
  have hdata : r.data = payload := h.data
  rw [VideoSender.payload] at hpayload
  rw [Viewer.Shares] at hshares
  rw [Viewer.emitFrame, if_neg (by rw [hwatched]; exact Bool.false_ne_true),
    if_neg (by rw [hsink]; exact Bool.false_ne_true)]
  cases hown : sender.ring with
  | none =>
    cases hring : viewer.ring with
    | none =>
      rw [hown] at hpayload
      rw [← Option.some.inj hpayload] at hdata
      rw [← hdata]
    | some ring =>
      rw [hown, hring] at hshares
      exact hshares.elim
  | some own =>
    cases hring : viewer.ring with
    | none =>
      rw [hown, hring] at hshares
      exact hshares.elim
    | some ring =>
      rw [hown, hring] at hshares
      rw [hown] at hpayload
      obtain ⟨husername, hkeys⟩ := hshares
      have hopen := openVideoFrame_seal hcipher hkeys hpayload
      have hframeId : r.frameId = sender.nextFrameId := h.frameId
      have hisKeyframe : r.isKeyframe = isKeyframe := h.isKeyframe
      have hcodec : r.codec = codec := h.codec
      rw [husername, ← h.streamerId, ← hframeId, ← hisKeyframe, ← hcodec, ← hdata] at hopen
      dsimp only
      rw [hopen]
      rfl

end Arrives

section Arrival

variable {cipher : FrameCipher Key} {sender : VideoSender Key} {viewer : Viewer Key}
  {args : SendVideoFrameArgs} {now : Instant}

/-- The renderer's frames arrive as submitted exactly if they are no keyframes with a description,
    or its length is taken: not 0, and not 1024. -/
theorem rendererFrame_arrives_iff (hcipher : cipher.Correct)
    (hshows : viewer.Shows sender.streamerId) (hshares : viewer.Shares sender now)
    (hmagic : ¬ wireDescriptionMagic <+: args.data)
    (hpos : 0 < (sender.datagrams cipher args).length)
    (hsmall : (sender.datagrams cipher args).length ≤ maxPacketsPerFrame) :
    sender.Arrives cipher viewer args now ↔ args.DescriptionFits := by
  obtain ⟨payload, hpayload, hdatagrams⟩ := exists_payload hpos
  rw [hdatagrams, List.length_map, length_packets] at hpos hsmall
  have hlength : args.wire.length < 256 ^ 4 := by
    have hfits : payload.length ≤ (sender.frame args.keyframe args.codec payload).totalPackets *
        udpMaxPayload :=
      (SentFrame.totalPackets_le_iff (f := sender.frame args.keyframe args.codec payload)).1
        (Nat.le_refl _)
    have hle := length_le_payload hcipher hpayload
    rw [maxPacketsPerFrame] at hsmall
    rw [udpMaxPayload] at hfits
    omega
  have hcomes {s : SenderState} {arrivals : List Datagram} (hid : s.id = sender.streamerId)
      (hnew : s.framesInProgress.get? sender.nextFrameId = none)
      (hlate : args.keyframe = true ∨ s.nextDelivery.any (seqBefore sender.nextFrameId) = false)
      (hsent : ∀ d ∈ arrivals, d.bytes ∈ sender.datagrams cipher args)
      (hall : ∀ b ∈ sender.datagrams cipher args, ∃ d ∈ arrivals, d.bytes = b) :
      ∃ taken r afterSilence,
        s.completes sender.ring.isSome arrivals = some (taken, r, afterSilence) ∧
        taken.nextDelivery = s.nextDelivery ∧
        Comes (sender.frame args.keyframe args.codec payload) sender.streamerId r := by
    rw [hdatagrams] at hsent hall
    rw [← hid]
    refine completes_of_all hsmall hpos hnew (fun h => ?_) hsent hall
    rw [Bool.and_eq_true, Bool.not_eq_true'] at h
    rcases hlate with hkey | hbehind
    · exact Bool.false_ne_true (h.1.symm.trans hkey)
    · exact Bool.false_ne_true (hbehind.symm.trans h.2)
  have hemits {r : ReassembledFrame}
      (h : Comes (sender.frame args.keyframe args.codec payload) sender.streamerId r) :
      AsSubmitted args (stripKeyframeDescription { r with data := args.wire }) ↔
        args.DescriptionFits :=
    asSubmitted_strip_iff h.codec h.isKeyframe rfl h.description hmagic hlength
  constructor
  · -- The datagrams in order, at a receiver that has nothing yet.
    intro harrives
    have hmem {b : Bytes} : b ∈ sender.datagrams cipher args →
        ∃ d ∈ (sender.datagrams cipher args).map (Datagram.mk 0 · 0), d.bytes = b :=
      fun hb => ⟨⟨0, b, 0⟩, List.mem_map_of_mem hb, rfl⟩
    have hsent : ∀ d ∈ (sender.datagrams cipher args).map (Datagram.mk 0 · 0),
        d.bytes ∈ sender.datagrams cipher args := by
      intro d hd
      obtain ⟨b, hb, rfl⟩ := List.mem_map.1 hd
      exact hb
    obtain ⟨taken, r, afterSilence, hcompletes, -, out, hout, hsub⟩ :=
      harrives { id := sender.streamerId, lastActivity := 0 } _ rfl rfl (.inr rfl) hsent
        fun b hb => hmem hb
    obtain ⟨taken', r', afterSilence', hcompletes', -, hr⟩ := @hcomes
      { id := sender.streamerId, lastActivity := 0 } _ rfl rfl (.inr rfl) hsent
        fun b hb => hmem hb
    obtain ⟨rfl, rfl, rfl⟩ : taken = taken' ∧ r = r' ∧ afterSilence = afterSilence' := by
      have h := Option.some.inj (hcompletes.symm.trans hcompletes')
      exact ⟨congrArg (·.1) h, congrArg (·.2.1) h, congrArg (·.2.2) h⟩
    rw [emitFrame_of_comes hcipher hshows hshares hpayload hr] at hout
    exact (hemits hr).1 (Option.some.inj hout ▸ hsub)
  · intro hfits s arrivals hid hnew hlate hsent hall
    obtain ⟨taken, r, afterSilence, hcompletes, hnext, hr⟩ := hcomes hid hnew hlate hsent hall
    refine ⟨taken, r, afterSilence, hcompletes, fun hhands => ?_, _,
      emitFrame_of_comes hcipher hshows hshares hpayload hr, (hemits hr).2 hfits⟩
    refine SenderState.HandsOn.acceptCompleted ?_ now afterSilence
    have hkey : r.isKeyframe = args.keyframe := hr.isKeyframe
    have hframeId : r.frameId = sender.nextFrameId := hr.frameId
    rw [SenderState.HandsOn, SenderState.late] at hhands ⊢
    rw [hnext, hkey, hframeId]
    exact hhands

/-- Encrypts nothing, and puts an empty tag behind the data. -/
def clearFrames : FrameCipher Unit where
  encrypt _ _ msg _ := some (msg ++ List.replicate 16 0)
  decrypt _ _ ct _ := some (ct.take (ct.length - 16))

theorem clearFrames_correct : clearFrames.Correct where
  decrypt_encrypt _ _ msg _ ct h := by
    obtain rfl := Option.some.inj h
    refine congrArg some (take_left' ?_)
    rw [length_append, length_replicate, Nat.add_sub_cancel]
  length_encrypt _ _ msg _ ct h := by
    obtain rfl := Option.some.inj h
    rw [length_append, length_replicate]

/-- A ring in which everybody has the same key. -/
def oneKeyRing (username : Bytes) : KeyRing Unit where
  username
  current := some { epoch := 7, members := fun _ => some ⟨(), (), ()⟩ }
  previous := none
  quarantined := false

/-- A streamer, in an encrypted channel or not. -/
def streamer (ring : Option (KeyRing Unit)) : VideoSender Unit where
  senderId := [97, 110, 110]
  nextFrameId := 5
  streamSalt := 9
  ring

def watcher (ring : Option (KeyRing Unit)) : Viewer Unit where
  isWatched _ := true
  isStreamFrameSink _ := true
  ring

def hevcKeyframe (description : Option Bytes) : SendVideoFrameArgs where
  codec := 3
  keyframe := true
  data := [0, 0, 0, 1, 38]
  description

theorem shares_oneKeyRing : (watcher (some (oneKeyRing [98]))).Shares
    (streamer (some (oneKeyRing [97, 110, 110]))) 0 := by
  refine And.intro (by decide) fun _ _ h => ?_
  obtain ⟨rfl, rfl⟩ := Prod.mk.inj (Option.some.inj h)
  rfl

theorem rendererFrame_arrives_sealed :
    (streamer (some (oneKeyRing [97, 110, 110]))).Arrives clearFrames
      (watcher (some (oneKeyRing [98]))) (hevcKeyframe (some [1, 2, 3])) 0 :=
  (rendererFrame_arrives_iff clearFrames_correct ⟨rfl, rfl⟩ shares_oneKeyRing (by decide)
    (by decide +kernel) (by decide +kernel)).2 (by decide)

/-- An empty description leaves tag and length before the bitstream. -/
theorem not_arrives_emptyDescription :
    ¬(streamer none).Arrives clearFrames (watcher none) (hevcKeyframe (some [])) 0 := by
  intro h
  obtain ⟨taken, r, afterSilence, hcompletes, -, out, hout, hsub⟩ := h
    { id := (streamer none).streamerId, lastActivity := 0 }
    (((streamer none).datagrams clearFrames (hevcKeyframe (some []))).map (Datagram.mk 0 · 0))
    rfl rfl (.inl rfl) (by decide +kernel) (by decide +kernel)
  have hdata : (({ id := (streamer none).streamerId, lastActivity := 0 } :
        SenderState).completes false (((streamer none).datagrams clearFrames
          (hevcKeyframe (some []))).map (Datagram.mk 0 · 0))).map
        (fun c => ((watcher none).emitFrame clearFrames 0 c.2.1).map (·.data)) =
      some (some [0xDE, 0xC1, 0xBE, 0x11, 0, 0, 0, 0, 0, 0, 0, 1, 38]) := by
    decide +kernel
  rw [show (streamer none).ring.isSome = false from rfl] at hcompletes
  rw [hcompletes, Option.map_some, hout, Option.map_some, hsub.data] at hdata
  exact absurd hdata (by decide)

end Arrival

end Decibell.Media
