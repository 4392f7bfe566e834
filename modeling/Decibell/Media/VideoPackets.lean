import Decibell.Media.FrameAssembly

/-!
# Video and FEC packets on the wire

A frame is cut into fragments of at most `udpMaxPayload` bytes, and each group of `fecGroupSize`
of them is followed by a FEC packet. Both are packed structs, written as they lie in memory.
-/

namespace Decibell.Media

open Lib List

def packetTypeVideo : UInt8 := 1
def packetTypeFec : UInt8 := 4
def packetTypeVideoSealed : UInt8 := 9

def field (buf : Bytes) (offset size : Nat) : Bytes := (buf.drop offset).take size

def uint16Field (buf : Bytes) (offset : Nat) : UInt16 := .ofNat (ofLeBytes (field buf offset 2))

def uint32Field (buf : Bytes) (offset : Nat) : UInt32 := .ofNat (ofLeBytes (field buf offset 4))

def videoHeaderSize : Nat := 45
def fecHeaderSize : Nat := 43

/-- The header and the bytes in use, under a packet type. -/
def UdpVideoPacket.toBytes (pkt : UdpVideoPacket) (packetType : UInt8) : Bytes :=
  [[packetType], pkt.senderId, leBytes 4 pkt.frameId.toNat, leBytes 2 pkt.packetIndex.toNat,
    leBytes 2 pkt.totalPackets.toNat, leBytes 2 pkt.payload.length,
    [if pkt.isKeyframe then 1 else 0], [pkt.codec], pkt.payload].flatten

/-- The size is cut to what was copied: a datagram may claim more. -/
def UdpVideoPacket.fromBytes (buf : Bytes) : Option UdpVideoPacket :=
  if buf.length < videoHeaderSize then none
  else
    let copied := min (min (uint16Field buf 41).toNat (buf.length - videoHeaderSize)) udpMaxPayload
    some
      { senderId := field buf 1 senderIdSize
        frameId := uint32Field buf 33
        packetIndex := uint16Field buf 37
        totalPackets := uint16Field buf 39
        isKeyframe := field buf 43 1 ≠ [0]
        codec := (field buf 44 1).headD 0
        payload := field buf videoHeaderSize copied }

/-- The whole struct. -/
def UdpFecPacket.toBytes (pkt : UdpFecPacket) : Bytes :=
  [[packetTypeFec], pkt.senderId, leBytes 4 pkt.frameId.toNat, leBytes 2 pkt.groupStart.toNat,
    leBytes 2 pkt.groupCount.toNat, leBytes 2 pkt.payloadSizeXor.toNat, pkt.payload].flatten

/-- A datagram that is shorter than the struct is malformed. -/
def UdpFecPacket.fromBytes (buf : Bytes) : Option UdpFecPacket :=
  if h : fecHeaderSize + udpMaxPayload ≤ buf.length then
    some
      { senderId := field buf 1 senderIdSize
        frameId := uint32Field buf 33
        groupStart := uint16Field buf 37
        groupCount := uint16Field buf 39
        payloadSizeXor := uint16Field buf 41
        payload := field buf fecHeaderSize udpMaxPayload
        full := by
          rw [field, List.length_take, List.length_drop]
          omega }
  else none

inductive FramePacket
  | video (pkt : UdpVideoPacket)
  | fec (pkt : UdpFecPacket)

/-- A call's type of video packets: sealed ones if encrypted. -/
def videoType (encrypted : Bool) : UInt8 :=
  if encrypted then packetTypeVideoSealed else packetTypeVideo

/-- A datagram, as the receiver of a call takes it. -/
def parseDatagram (encrypted : Bool) (buf : Bytes) : Option FramePacket :=
  match buf.head? with
  | none => none
  | some packetType =>
    if packetType = videoType encrypted then (UdpVideoPacket.fromBytes buf).map .video
    else if packetType = packetTypeFec then (UdpFecPacket.fromBytes buf).map .fec
    else none

def FramePacket.toBytes (encrypted : Bool) : FramePacket → Bytes
  | .video pkt => pkt.toBytes (videoType encrypted)
  | .fec pkt => pkt.toBytes

/-! ## Datagrams give their packets back -/

theorem field_flatten (before : List Bytes) (bytes : Bytes) (after : List Bytes) {offset size : Nat}
    (hoffset : before.flatten.length = offset) (hsize : bytes.length = size) :
    field (before ++ bytes :: after).flatten offset size = bytes := by
  rw [field, flatten_append, ← hoffset, drop_left, flatten_cons, ← hsize,
    take_left]

theorem uint16Field_flatten (before : List Bytes) (n : UInt16) (after : List Bytes) {offset : Nat}
    (hoffset : before.flatten.length = offset) :
    uint16Field (before ++ leBytes 2 n.toNat :: after).flatten offset = n := by
  rw [uint16Field, field_flatten before _ after hoffset (length_leBytes 2 _),
    ofLeBytes_leBytes n.toNat_lt, UInt16.ofNat_toNat]

theorem uint32Field_flatten (before : List Bytes) (n : UInt32) (after : List Bytes) {offset : Nat}
    (hoffset : before.flatten.length = offset) :
    uint32Field (before ++ leBytes 4 n.toNat :: after).flatten offset = n := by
  rw [uint32Field, field_flatten before _ after hoffset (length_leBytes 4 _),
    ofLeBytes_leBytes n.toNat_lt, UInt32.ofNat_toNat]

theorem UdpVideoPacket.fromBytes_toBytes {pkt : UdpVideoPacket} {packetType : UInt8}
    (hid : pkt.senderId.length = senderIdSize) (hpayload : pkt.payload.length ≤ udpMaxPayload)
    (hstream : pkt.stream = 0) : fromBytes (pkt.toBytes packetType) = some pkt := by
  obtain ⟨id, frameId, index, total, key, codec, payload, stream⟩ := pkt
  obtain rfl : stream = 0 := hstream
  change id.length = 32 at hid
  change payload.length ≤ 1200 at hpayload
  generalize hbuf : UdpVideoPacket.toBytes ⟨id, frameId, index, total, key, codec, payload, 0⟩
    packetType = buf
  rw [toBytes] at hbuf
  dsimp only at hbuf
  have hsize : (UInt16.ofNat payload.length).toNat = payload.length := by
    rw [UInt16.toNat_ofNat']
    omega
  have hlength : buf.length = videoHeaderSize + payload.length := by
    simp only [← hbuf, length_flatten, map_cons, map_nil, sum_cons,
      sum_nil, length_leBytes, hid, length_cons, length_nil, videoHeaderSize]
    omega
  have hsender : field buf 1 senderIdSize = id := hbuf ▸ field_flatten [_] id _ rfl hid
  have hframe : uint32Field buf 33 = frameId :=
    hbuf ▸ uint32Field_flatten [_, id] frameId _ (by simp [hid])
  have hindex : uint16Field buf 37 = index :=
    hbuf ▸ uint16Field_flatten [_, id, _] index _ (by simp [hid])
  have htotal : uint16Field buf 39 = total :=
    hbuf ▸ uint16Field_flatten [_, id, _, _] total _ (by simp [hid])
  have hpayloadSize : uint16Field buf 41 = .ofNat payload.length := by
    have hfield : field buf 41 2 = leBytes 2 payload.length :=
      hbuf ▸ field_flatten [_, id, _, _, _] _ _ (by simp [hid]) (length_leBytes 2 _)
    have hfit : payload.length < 256 ^ 2 := by omega
    rw [uint16Field, hfield, ofLeBytes_leBytes hfit]
  have hkey : field buf 43 1 = [if key then 1 else 0] :=
    hbuf ▸ field_flatten [_, id, _, _, _, _] _ _ (by simp [hid]) rfl
  have hcodec : field buf 44 1 = [codec] :=
    hbuf ▸ field_flatten [_, id, _, _, _, _, _] _ _ (by simp [hid]) rfl
  have hbytes : field buf videoHeaderSize payload.length = payload :=
    hbuf ▸ field_flatten [_, id, _, _, _, _, _, _] payload [] (by simp [hid, videoHeaderSize]) rfl
  have hcopied : min (min (uint16Field buf 41).toNat (buf.length - videoHeaderSize))
      udpMaxPayload = payload.length := by
    rw [hpayloadSize, hsize, hlength, udpMaxPayload]
    omega
  rw [fromBytes, if_neg (by omega)]
  simp only [hcopied, hsender, hframe, hindex, htotal, hkey, hcodec, hbytes]
  cases key <;> rfl

theorem UdpFecPacket.fromBytes_toBytes {pkt : UdpFecPacket}
    (hid : pkt.senderId.length = senderIdSize) (hstream : pkt.stream = 0) :
    fromBytes pkt.toBytes = some pkt := by
  obtain ⟨id, frameId, start, count, size, payload, stream, full⟩ := pkt
  obtain rfl : stream = 0 := hstream
  change id.length = 32 at hid
  generalize hbuf : UdpFecPacket.toBytes ⟨id, frameId, start, count, size, payload, 0, full⟩ = buf
  rw [toBytes] at hbuf
  dsimp only at hbuf
  have hlength : buf.length = fecHeaderSize + udpMaxPayload := by
    simp only [← hbuf, length_flatten, map_cons, map_nil, sum_cons,
      sum_nil, length_leBytes, hid, full, length_cons, length_nil, fecHeaderSize]
    omega
  have hsender : field buf 1 senderIdSize = id := hbuf ▸ field_flatten [_] id _ rfl hid
  have hframe : uint32Field buf 33 = frameId :=
    hbuf ▸ uint32Field_flatten [_, id] frameId _ (by simp [hid])
  have hstart : uint16Field buf 37 = start :=
    hbuf ▸ uint16Field_flatten [_, id, _] start _ (by simp [hid])
  have hcount : uint16Field buf 39 = count :=
    hbuf ▸ uint16Field_flatten [_, id, _, _] count _ (by simp [hid])
  have hxor : uint16Field buf 41 = size :=
    hbuf ▸ uint16Field_flatten [_, id, _, _, _] size _ (by simp [hid])
  have hbytes : field buf fecHeaderSize udpMaxPayload = payload :=
    hbuf ▸ field_flatten [_, id, _, _, _, _] payload [] (by simp [hid, fecHeaderSize]) full
  rw [fromBytes, dif_pos (by omega)]
  simp only [hsender, hframe, hstart, hcount, hxor, hbytes]

def FramePacket.WellFormed : FramePacket → Prop
  | .video pkt => pkt.senderId.length = senderIdSize ∧ pkt.payload.length ≤ udpMaxPayload ∧
      pkt.stream = 0
  | .fec pkt => pkt.senderId.length = senderIdSize ∧ pkt.stream = 0

theorem parseDatagram_toBytes {encrypted : Bool} {p : FramePacket} (h : p.WellFormed) :
    parseDatagram encrypted (p.toBytes encrypted) = some p := by
  cases p with
  | video pkt =>
    have hparse : parseDatagram encrypted (pkt.toBytes (videoType encrypted)) =
        (UdpVideoPacket.fromBytes (pkt.toBytes (videoType encrypted))).map .video := if_pos rfl
    rw [FramePacket.toBytes, hparse, UdpVideoPacket.fromBytes_toBytes h.1 h.2.1 h.2.2,
      Option.map_some]
  | fec pkt =>
    have hother : packetTypeFec ≠ videoType encrypted := by cases encrypted <;> decide
    have hparse : parseDatagram encrypted pkt.toBytes =
        (UdpFecPacket.fromBytes pkt.toBytes).map .fec := (if_neg hother).trans (if_pos rfl)
    rw [FramePacket.toBytes, hparse, UdpFecPacket.fromBytes_toBytes h.1 h.2, Option.map_some]

/-! ## The sender -/

structure SentFrame where
  senderId : SenderId
  frameId : UInt32
  isKeyframe : Bool
  codec : UInt8
  data : Bytes
  id_length : senderId.length = senderIdSize

/-- The parity of the group that is being sent. -/
structure FecAccumulator where
  payload : Bytes
  sizeXor : UInt16
  groupStart : Nat
  groupCount : Nat
  full : payload.length = udpMaxPayload

theorem length_xorInto (recovered bytes : Bytes) :
    (FrameAssembly.xorInto recovered bytes).length = recovered.length := by
  induction recovered generalizing bytes with
  | nil => cases bytes <;> rfl
  | cons r recovered ih =>
    cases bytes with
    | nil => rfl
    | cons b bytes => rw [FrameAssembly.xorInto, length_cons, length_cons, ih]

namespace FecAccumulator

def start (groupStart : Nat) : FecAccumulator where
  payload := List.replicate udpMaxPayload 0
  sizeXor := 0
  groupStart
  groupCount := 0
  full := List.length_replicate

/-- One more fragment, zero-padded, and its size. -/
def add (acc : FecAccumulator) (chunk : Bytes) : FecAccumulator where
  payload := FrameAssembly.xorInto acc.payload chunk
  sizeXor := acc.sizeXor ^^^ .ofNat chunk.length
  groupStart := acc.groupStart
  groupCount := acc.groupCount + 1
  full := (length_xorInto _ _).trans acc.full

end FecAccumulator

namespace SentFrame

variable (f : SentFrame)

/-- `(size + UDP_MAX_PAYLOAD - 1) / UDP_MAX_PAYLOAD`. -/
def totalPackets : Nat := (f.data.length + udpMaxPayload - 1) / udpMaxPayload

def videoPacket (index : Nat) (chunk : Bytes) : FramePacket :=
  .video
    { senderId := f.senderId
      frameId := f.frameId
      packetIndex := .ofNat index
      totalPackets := .ofNat f.totalPackets
      isKeyframe := f.isKeyframe
      codec := f.codec
      payload := chunk }

def fecPacket (acc : FecAccumulator) : FramePacket :=
  .fec
    { senderId := f.senderId
      frameId := f.frameId
      groupStart := .ofNat acc.groupStart
      groupCount := .ofNat acc.groupCount
      payloadSizeXor := acc.sizeXor
      payload := acc.payload
      full := acc.full }

theorem length_drop_lt {rest : Bytes} (h : rest ≠ []) :
    (rest.drop udpMaxPayload).length < rest.length := by
  have hpos := length_pos_iff.2 h
  have hmax : 0 < udpMaxPayload := by decide
  rw [length_drop]
  omega

/-- The packets from fragment `index` on, of the data `rest`. FEC follows each full group, and the
    last if of two fragments or more. -/
def sendLoop (rest : Bytes) (index : Nat) (acc : FecAccumulator) : List FramePacket :=
  if h : rest = [] then if 1 < acc.groupCount then [f.fecPacket acc] else []
  else
    let chunk := rest.take udpMaxPayload
    let acc := acc.add chunk
    f.videoPacket index chunk ::
      if acc.groupCount = fecGroupSize then
        f.fecPacket acc :: sendLoop (rest.drop udpMaxPayload) (index + 1) (.start (index + 1))
      else sendLoop (rest.drop udpMaxPayload) (index + 1) acc
termination_by rest.length
decreasing_by all_goals exact length_drop_lt h

/-- What is sent of a frame, in order. -/
def fragmentAndSend : List FramePacket :=
  if f.data = [] then [] else f.sendLoop f.data 0 (.start 0)

/-! ## What is sent -/

/-- A fragment of the frame. -/
def fragment (index : Nat) : Bytes := (f.data.drop (index * udpMaxPayload)).take udpMaxPayload

/-- How many fragments the group has that begins with a fragment. -/
def groupSize (start : Nat) : Nat := min fecGroupSize (f.totalPackets - start)

/-- The parity of some fragments in a row. -/
def accumulate (start count : Nat) : FecAccumulator :=
  (List.range' start count).foldl (fun acc i => acc.add (f.fragment i)) (.start start)

def groupParity (start : Nat) : FecAccumulator := f.accumulate start (f.groupSize start)

variable {f}

theorem accumulate_succ (start count : Nat) :
    f.accumulate start (count + 1) =
      (f.accumulate start count).add (f.fragment (start + count)) := by
  rw [accumulate, range'_concat, foldl_append, Nat.one_mul]
  rfl

theorem accumulate_bounds (start count : Nat) :
    (f.accumulate start count).groupStart = start ∧
      (f.accumulate start count).groupCount = count := by
  induction count with
  | zero => exact ⟨rfl, rfl⟩
  | succ count ih =>
    rw [accumulate_succ]
    exact ⟨ih.1, congrArg (· + 1) ih.2⟩

theorem totalPackets_le_iff {index : Nat} :
    f.totalPackets ≤ index ↔ f.data.length ≤ index * udpMaxPayload := by
  rw [totalPackets, udpMaxPayload]
  omega

theorem length_fragment_le (index : Nat) : (f.fragment index).length ≤ udpMaxPayload :=
  length_take_le _ _

/-- A group with more than one fragment has a FEC packet. -/
def HasParity (f : SentFrame) (start : Nat) : Prop :=
  start % fecGroupSize = 0 ∧ start + 1 < f.totalPackets

/-- The fragments from `index` on are sent, and their groups' parities. -/
theorem mem_sendLoop {index start count : Nat} {p : FramePacket} (hindex : index = start + count)
    (hend : index ≤ f.totalPackets) (hstart : start % fecGroupSize = 0)
    (hcount : count < fecGroupSize) :
    p ∈ f.sendLoop (f.data.drop (index * udpMaxPayload)) index (f.accumulate start count) ↔
      (∃ i, index ≤ i ∧ i < f.totalPackets ∧ p = f.videoPacket i (f.fragment i)) ∨
      ∃ s, start ≤ s ∧ f.HasParity s ∧ p = f.fecPacket (f.groupParity s) := by
  rw [fecGroupSize] at hstart hcount
  induction hleft : f.totalPackets - index generalizing index start count with
  | zero =>
    -- Nothing remains: the last group is sent if it has more than one fragment.
    have hlast : f.totalPackets = index := by omega
    have hnil : f.data.drop (index * udpMaxPayload) = [] :=
      drop_eq_nil_iff.2 (totalPackets_le_iff.1 (Nat.le_of_eq hlast))
    have hparity : f.groupParity start = f.accumulate start count := by
      rw [groupParity, groupSize, hlast, hindex, Nat.add_sub_cancel_left, fecGroupSize,
        Nat.min_eq_right (Nat.le_of_lt hcount)]
    rw [sendLoop, dif_pos hnil, (f.accumulate_bounds start count).2]
    constructor
    · intro hp
      split at hp
      · rename_i hmore
        rw [mem_singleton] at hp
        exact .inr ⟨start, Nat.le_refl _, ⟨hstart, by omega⟩, hparity ▸ hp⟩
      · cases hp
    · rintro (⟨i, hi, hi', -⟩ | ⟨s, hs, ⟨hs', hmore⟩, rfl⟩)
      · omega
      · have hsame : s = start := by
          rw [fecGroupSize] at hs'
          omega
        subst hsame
        rw [if_pos (by omega), hparity]
        exact .head _
  | succ n ih =>
    have hend' : index + 1 ≤ f.totalPackets := Nat.lt_of_sub_pos (hleft ▸ Nat.succ_pos n)
    have hleft' : f.totalPackets - (index + 1) = n := by rw [← Nat.sub_sub, hleft]; rfl
    have hrest : f.data.drop (index * udpMaxPayload) ≠ [] := fun hnil => by
      have := totalPackets_le_iff.2 (drop_eq_nil_iff.1 hnil)
      omega
    have hnext : (f.data.drop (index * udpMaxPayload)).drop udpMaxPayload =
        f.data.drop ((index + 1) * udpMaxPayload) := by
      rw [drop_drop, Nat.add_mul, Nat.one_mul]
    have hadd : (f.accumulate start count).add
        ((f.data.drop (index * udpMaxPayload)).take udpMaxPayload) =
          f.accumulate start (count + 1) := by
      rw [accumulate_succ, ← hindex]
      rfl
    rw [sendLoop, dif_neg hrest]
    dsimp only
    rw [hadd, hnext, (f.accumulate_bounds start (count + 1)).2, mem_cons]
    have hfirst : (∃ i, index ≤ i ∧ i < f.totalPackets ∧ p = f.videoPacket i (f.fragment i)) ↔
        p = f.videoPacket index (f.fragment index) ∨
          ∃ i, index + 1 ≤ i ∧ i < f.totalPackets ∧ p = f.videoPacket i (f.fragment i) := by
      constructor
      · rintro ⟨i, hi, hi', rfl⟩
        rcases Nat.eq_or_lt_of_le hi with rfl | hi
        · exact .inl rfl
        · exact .inr ⟨i, hi, hi', rfl⟩
      · rintro (rfl | ⟨i, hi, hi', rfl⟩)
        · exact ⟨index, Nat.le_refl _, by omega, rfl⟩
        · exact ⟨i, Nat.le_of_succ_le hi, hi', rfl⟩
    rw [hfirst, or_assoc]
    refine or_congr_right ?_
    split
    · -- The group is full: its parity is sent, and the next one begins.
      rename_i hfull
      rw [fecGroupSize] at hfull
      have hparity : f.groupParity start = f.accumulate start (count + 1) := by
        rw [groupParity, groupSize, fecGroupSize, hfull, Nat.min_eq_left (by omega)]
      have hgroups : (∃ s, start ≤ s ∧ f.HasParity s ∧ p = f.fecPacket (f.groupParity s)) ↔
          p = f.fecPacket (f.accumulate start (count + 1)) ∨
            ∃ s, index + 1 ≤ s ∧ f.HasParity s ∧ p = f.fecPacket (f.groupParity s) := by
        constructor
        · rintro ⟨s, hs, ⟨hs', hmore⟩, rfl⟩
          rw [fecGroupSize] at hs'
          rcases Nat.eq_or_lt_of_le hs with rfl | hlater
          · exact .inl (by rw [hparity])
          · exact .inr ⟨s, by omega, ⟨hs', hmore⟩, rfl⟩
        · rintro (rfl | ⟨s, hs, hs', rfl⟩)
          · exact ⟨start, Nat.le_refl _, ⟨hstart, by omega⟩, by rw [hparity]⟩
          · exact ⟨s, by omega, hs', rfl⟩
      have hempty : FecAccumulator.start (index + 1) = f.accumulate (index + 1) 0 := rfl
      have hstart' : (index + 1) % 5 = 0 := by omega
      rw [mem_cons, hempty, @ih (index + 1) (index + 1) 0 rfl hend' hstart' (by decide) hleft',
        hgroups]
      exact or_left_comm
    · rename_i hfull
      rw [fecGroupSize] at hfull
      have hcount' : count + 1 < 5 := by omega
      exact @ih (index + 1) start (count + 1) (by rw [hindex, Nat.add_assoc]) hend' hstart hcount'
        hleft'

theorem mem_fragmentAndSend {p : FramePacket} : p ∈ f.fragmentAndSend ↔
    (∃ i, i < f.totalPackets ∧ p = f.videoPacket i (f.fragment i)) ∨
    ∃ s, f.HasParity s ∧ p = f.fecPacket (f.groupParity s) := by
  rw [fragmentAndSend]
  split
  · -- Nothing is sent of an empty frame.
    rename_i hnil
    have hnone : f.totalPackets = 0 := Nat.le_zero.1 (totalPackets_le_iff.2 (by rw [hnil]; simp))
    constructor
    · intro hp
      cases hp
    · rintro (⟨i, hi, -⟩ | ⟨s, ⟨-, hs⟩, -⟩) <;> omega
  · have hloop := @mem_sendLoop f 0 0 0 p rfl (Nat.zero_le _) rfl (by decide)
    rw [Nat.zero_mul, drop_zero] at hloop
    simp only [Nat.zero_le, true_and] at hloop
    exact hloop

theorem wellFormed_of_mem {p : FramePacket} (h : p ∈ f.fragmentAndSend) : p.WellFormed := by
  rcases mem_fragmentAndSend.1 h with ⟨i, -, rfl⟩ | ⟨s, -, rfl⟩
  · exact ⟨f.id_length, length_fragment_le i, rfl⟩
  · exact ⟨f.id_length, rfl⟩

end SentFrame

end Decibell.Media
