import Decibell.Media.MediaSocket

/-!
# Video frames from their packets

A video frame goes out in packets of at most `udpMaxPayload` bytes, and a FEC packet goes with each
group of them: the XOR of their bytes and of their sizes.
-/

namespace Decibell.Media

open List

/-- A time of the steady clock, in nanoseconds. -/
abbrev Instant := Int

/-- A time span, in nanoseconds. -/
abbrev Duration := Nat

def fromMillis (n : Nat) : Duration := n * 1000000
def fromSecs (n : Nat) : Duration := n * 1000000000

/-- The time from `earlier` to `now`, none if it is later. -/
def durationSince (now earlier : Instant) : Duration := (now - earlier).toNat

/-- The media id of a streamer, as it stands in a packet. -/
abbrev SenderId := Bytes

/-- The id as a text: up to its first NUL. -/
def senderIdStr (id : SenderId) : Bytes := id.takeWhile (· ≠ 0)

structure UdpVideoPacket where
  senderId : SenderId
  frameId : UInt32
  packetIndex : UInt16
  totalPackets : UInt16
  isKeyframe : Bool
  codec : UInt8 := 1
  /-- The bytes in use: `payload_data`. -/
  payload : Bytes
  stream : Nat := 0

structure UdpFecPacket where
  senderId : SenderId
  frameId : UInt32
  groupStart : UInt16
  groupCount : UInt16
  payloadSizeXor : UInt16
  payload : Bytes
  stream : Nat := 0
  /-- `[u8; UDP_MAX_PAYLOAD]`. -/
  full : payload.length = udpMaxPayload

/-- Most packets of a frame: the number comes from outside. -/
def maxPacketsPerFrame : Nat := 2048

def fecGroupSize : Nat := 5

/-- Most FEC groups kept for a frame. -/
def maxFecGroups : Nat := maxPacketsPerFrame / fecGroupSize + 1

/-- A FEC packet kept for the recovery. -/
structure FecGroup where
  groupStart : Nat
  groupCount : Nat
  payloadSizeXor : Nat
  payload : Bytes
  /-- It has rebuilt its packet. -/
  used : Bool := false

/-- A frame on its way in. -/
structure FrameAssembly where
  totalPackets : Nat
  /-- The slots, one after the other. -/
  buf : Bytes
  /-- The size of the packet in each slot. -/
  sizes : List (Option Nat)
  receivedCount : Nat
  isKeyframe : Bool
  createdAt : Instant
  lastPacketAt : Instant
  highestIndex : Nat
  /-- The sender had been silent when the frame began. -/
  afterSilence : Bool
  codec : UInt8
  fecGroups : List FecGroup
  /-- The streams of the packets that went into it. -/
  streams : List Nat
  buf_length : buf.length = totalPackets * udpMaxPayload
  sizes_length : sizes.length = totalPackets
  count_eq : receivedCount = sizes.countP Option.isSome

namespace FrameAssembly

/-- A frame nothing of which has come. -/
def new (totalPackets : Nat) (isKeyframe : Bool) (codec : UInt8) (afterSilence : Bool)
    (now : Instant) : FrameAssembly where
  totalPackets
  buf := List.replicate (totalPackets * udpMaxPayload) 0
  sizes := List.replicate totalPackets none
  receivedCount := 0
  isKeyframe
  createdAt := now
  lastPacketAt := now
  highestIndex := 0
  afterSilence
  codec
  fecGroups := []
  streams := []
  buf_length := List.length_replicate
  sizes_length := List.length_replicate
  count_eq := (List.countP_eq_zero.2 fun s hs => by rw [List.eq_of_mem_replicate hs]; simp).symm

variable (a : FrameAssembly)

/-- The size of the packet in a slot. -/
def size? (i : Nat) : Option Nat := a.sizes[i]?.join

/-- Where a slot begins. -/
def start (i : Nat) : Nat := i * udpMaxPayload

/-- The bytes written over those of a buffer at a place. -/
def writeAt (buf : Bytes) (start : Nat) (bytes : Bytes) : Bytes :=
  buf.take start ++ bytes ++ buf.drop (start + bytes.length)

theorem length_writeAt {buf bytes : Bytes} {start : Nat} (h : start + bytes.length ≤ buf.length) :
    (writeAt buf start bytes).length = buf.length := by
  rw [writeAt, length_append, length_append, length_take, length_drop]
  omega

theorem start_add_le {index : Nat} {payload : Bytes} (hindex : index < a.totalPackets)
    (hpayload : payload.length ≤ udpMaxPayload) :
    start index + payload.length ≤ a.buf.length := by
  have hslots : (index + 1) * udpMaxPayload ≤ a.totalPackets * udpMaxPayload :=
    Nat.mul_le_mul_right _ hindex
  rw [Nat.add_mul, Nat.one_mul] at hslots
  rw [a.buf_length, start]
  omega

theorem countP_set {sizes : List (Option Nat)} {index : Nat} (h : index < sizes.length) (n : Nat) :
    (sizes.set index (some n)).countP Option.isSome =
      sizes.countP Option.isSome + if sizes[index]?.join.isNone then 1 else 0 := by
  induction sizes generalizing index with
  | nil => exact absurd h (Nat.not_lt_zero _)
  | cons s sizes ih =>
    cases index with
    | zero => cases s <;> simp
    | succ index =>
      have ih := ih (Nat.lt_of_succ_lt_succ h)
      rw [set_cons_succ, countP_cons, countP_cons, ih]
      simp only [getElem?_cons_succ]
      omega

/-- Writes a packet to its slot; outside the buffer, where the program would stop, it is left. -/
def store (index : Nat) (payload : Bytes) : FrameAssembly :=
  if h : index < a.totalPackets ∧ payload.length ≤ udpMaxPayload then
    { a with
      buf := writeAt a.buf (start index) payload
      sizes := a.sizes.set index (some payload.length)
      receivedCount := a.receivedCount + if (a.size? index).isNone then 1 else 0
      buf_length := (length_writeAt (a.start_add_le h.1 h.2)).trans a.buf_length
      sizes_length := List.length_set.trans a.sizes_length
      count_eq := by rw [countP_set (by rw [a.sizes_length]; exact h.1), a.count_eq]; rfl }
  else a

/-- A packet out of range or too long is dropped, one that came before written again. -/
def insert (index : Nat) (payload : Bytes) (stream : Nat) (now : Instant) : FrameAssembly :=
  if a.totalPackets ≤ index ∨ udpMaxPayload < payload.length then a
  else
    { a.store index payload with
      lastPacketAt := now
      highestIndex := max a.highestIndex index
      streams := stream :: a.streams }

def isComplete : Bool := a.receivedCount == a.totalPackets

/-- Keeps one FEC packet a group, as many as a frame has groups. -/
def addFecGroup (g : FecGroup) (stream : Nat) : FrameAssembly :=
  if maxFecGroups ≤ a.fecGroups.length then a
  else if a.fecGroups.any (·.groupStart = g.groupStart) then a
  else { a with fecGroups := a.fecGroups ++ [g], streams := stream :: a.streams }

/-! ## The recovery -/

/-- The slots of a group in the frame: its bounds come from outside. -/
def covered (g : FecGroup) : List Nat :=
  List.range' g.groupStart (min (min (g.groupStart + g.groupCount) 0xFFFF) a.totalPackets -
    g.groupStart)

def missing (g : FecGroup) : List Nat := (a.covered g).filter fun i => (a.size? i).isNone

/-- Bytes XORed into others, over the length of the shorter. -/
def xorInto : Bytes → Bytes → Bytes
  | r :: recovered, b :: bytes => (r ^^^ b) :: xorInto recovered bytes
  | recovered, [] => recovered
  | [], _ => []

/-- A group's missing packet: the FEC packet's payload and size, XORed with the others'. -/
def rebuilt (g : FecGroup) (missingIdx : Nat) : Bytes × Nat :=
  ((a.covered g).filter (· ≠ missingIdx)).foldl
    (fun recovered i =>
      match a.size? i with
      | some size => (xorInto recovered.1 ((a.buf.drop (start i)).take size), recovered.2 ^^^ size)
      | none => recovered)
    (g.payload, g.payloadSizeXor)

/-- A group rebuilds its packet if only that is missing, once, and its size comes out right. -/
def recoverGroup (gi : Nat) : Option FrameAssembly :=
  a.fecGroups[gi]?.bind fun g =>
  if g.used then none
  else
    match a.missing g with
    | [missingIdx] =>
      let recovered := a.rebuilt g missingIdx
      if recovered.2 ≤ udpMaxPayload then
        some { a.store missingIdx (recovered.1.take recovered.2) with
          fecGroups := a.fecGroups.set gi { g with used := true } }
      else none
    | _ => none

/-- A pass over the groups; whether it got further. A complete frame ends it. -/
def fecPass : List Nat → FrameAssembly → Bool → FrameAssembly × Bool
  | [], a, progressed => (a, progressed)
  | gi :: rest, a, progressed =>
    match a.recoverGroup gi with
    | none => fecPass rest a progressed
    | some a' => if a'.isComplete then (a', true) else fecPass rest a' true

/-- How many groups have not rebuilt a packet. -/
def unused : Nat := a.fecGroups.countP (! ·.used)

variable {a} {a' : FrameAssembly}

theorem countP_set_lt {p : FecGroup → Bool} {l : List FecGroup} {i : Nat} {g g' : FecGroup}
    (h : l[i]? = some g) (hg : p g = true) (hg' : p g' = false) :
    (l.set i g').countP p < l.countP p := by
  induction l generalizing i with
  | nil => cases h
  | cons x l ih =>
    cases i with
    | zero =>
      cases h
      rw [set_cons_zero, countP_cons_of_neg (by simp [hg']), countP_cons_of_pos hg]
      exact Nat.lt_succ_self _
    | succ i =>
      rw [set_cons_succ, countP_cons, countP_cons]
      exact Nat.add_lt_add_right (ih h) _

theorem unused_recoverGroup {gi : Nat} (h : a.recoverGroup gi = some a') :
    a'.unused < a.unused := by
  rw [recoverGroup, Option.bind_eq_some_iff] at h
  obtain ⟨g, hg, h⟩ := h
  split at h
  · cases h
  · rename_i hused
    split at h
    · dsimp only at h
      split at h
      · cases h
        exact countP_set_lt hg (by simpa using hused) rfl
      · cases h
    · cases h

theorem unused_fecPass {l : List Nat} {progressed : Bool} :
    (fecPass l a progressed).1.unused ≤ a.unused ∧
      ((fecPass l a progressed).2 → progressed = false →
        (fecPass l a progressed).1.unused < a.unused) := by
  induction l generalizing a progressed with
  | nil => exact ⟨Nat.le_refl _, fun h h' => by rw [fecPass, h'] at h; cases h⟩
  | cons gi rest ih =>
    rw [fecPass]
    cases hgroup : a.recoverGroup gi with
    | none => exact ih
    | some a' =>
      have hless := unused_recoverGroup hgroup
      dsimp only
      split
      · exact ⟨Nat.le_of_lt hless, fun _ _ => hless⟩
      · exact ⟨Nat.le_trans ih.1 (Nat.le_of_lt hless), fun _ _ => Nat.lt_of_le_of_lt ih.1 hless⟩

/-- Passes, until the frame is complete or one gets no further. -/
def fecLoop (a : FrameAssembly) : FrameAssembly :=
  let pass := fecPass (List.range a.fecGroups.length) a false
  if pass.1.isComplete then pass.1
  else if h : pass.2 then
    have : pass.1.unused < a.unused := unused_fecPass.2 h rfl
    fecLoop pass.1
  else pass.1
termination_by a.unused

/-- Rebuilds what it can, and tells if the frame is complete. -/
def tryFecRecovery (a : FrameAssembly) : FrameAssembly × Bool :=
  if a.fecGroups.isEmpty || a.isComplete then (a, a.isComplete)
  else (a.fecLoop, a.fecLoop.isComplete)

/-! ## The frame -/

/-- The slots moved together from one on: the buffer, and how much is written. -/
def compact (a : FrameAssembly) (buf : Bytes) (write : Nat) : List Nat → Bytes × Nat
  | [] => (buf, write)
  | i :: rest =>
    match a.size? i with
    | some size => a.compact (writeAt buf write ((buf.drop (start i)).take size)) (write + size) rest
    | none => a.compact buf write rest

def intoData (a : FrameAssembly) : Bytes :=
  let compacted := a.compact a.buf 0 (List.range a.totalPackets)
  compacted.1.take compacted.2

end FrameAssembly
end Decibell.Media
