import Decibell.Community.Text
import Decibell.Lib.Bytes
import Decibell.Media.ReplayWindow

/-!
# The sealed media socket

Every datagram of a call between two peers is sealed with a key for its direction, under a nonce
made of a salt and a counter, and its counter is checked for replay when it is opened. The socket is
not connected: it sends to the source of the last datagram that opened.
-/

namespace Decibell

open Lib

/-- AES-256-GCM: the ciphertext with its tag, and a plaintext if the tag is right. -/
structure Aead (Key : Type) where
  encrypt : Key → (nonce aad plain : Bytes) → Option (Bytes × Bytes)
  decrypt : Key → (nonce aad cipher tag : Bytes) → Option Bytes

/-- An address of a socket. -/
inductive SocketAddr
  | v4 (a b c d : UInt8) (port : UInt16)
  | v6 (segments : List UInt16) (port : UInt16) (flowinfo scopeId : UInt32)
deriving DecidableEq

/-- The kinds of I/O errors the socket makes. -/
inductive IoErrorKind
  | invalidInput
  | other
  | notConnected
  | wouldBlock
deriving DecidableEq

/-- An I/O error. -/
structure IoError where
  kind : IoErrorKind
  message : String
deriving DecidableEq

def packetTypePing : UInt8 := 5
def senderIdSize : Nat := 32
def maxPayloadSize : Nat := 1200
def audioHeaderSize : Nat := 1 + senderIdSize + 2 + 2
def packetTotalSize : Nat := audioHeaderSize + maxPayloadSize
def udpMaxPayload : Nat := 1200

def outerTypeSealed : UInt8 := 0xE5
def outerHeader : Nat := 1 + 8
def tagLen : Nat := 16
/-- Bytes a sealed datagram adds to the inner one. -/
def sealOverhead : Nat := outerHeader + tagLen
/-- The largest inner datagram. -/
def maxInner : Nat := max packetTotalSize (45 + udpMaxPayload)
/-- Counters from here on are not sent. -/
def txCounterLimit : Nat := 2 ^ 63
/-- How long, in nanoseconds, a peer address may be silent. -/
def peerMigrateSilence : Nat := 2 * 10 ^ 9
/-- Datagrams in a row not surfaced before a receive returns. -/
def maxSkippedPerRecv : Nat := 64

/-- An atomic counter, by its increments since 0. -/
structure AtomicU64 where
  adds : Nat := 0

namespace AtomicU64

/-- The value, which wraps around. -/
def value (a : AtomicU64) : Nat := a.adds % 2 ^ 64

/-- `fetch_add(1)`. -/
def fetchAdd (a : AtomicU64) : Nat × AtomicU64 := (a.value, ⟨a.adds + 1⟩)

end AtomicU64

/-- A sealed socket's envelope state, and its peer with when it was heard. -/
structure SealState (Key : Type) where
  tx : Key
  rx : Key
  txSalt : Bytes
  rxSalt : Bytes
  txCtr : AtomicU64 := {}
  rxWin : ReplayWindow := {}
  peer : Option (SocketAddr × Nat) := none
  /-- The nonces `tx` was called with, the last one first. -/
  txNonces : List Bytes := []

variable {Key : Type} (aead : Aead Key)

namespace SealState

/-- The nonce for a counter. -/
def nonce (salt : Bytes) (ctr : Nat) : Bytes := salt ++ beBytes 8 ctr

/-- Seals a datagram under the next counter. -/
def sealDatagram (st : SealState Key) (inner : Bytes) : Except IoError Bytes × SealState Key :=
  if maxInner < inner.length then
    (.error ⟨.invalidInput, "datagram too large to seal"⟩, st)
  else
    let (ctr, txCtr) := st.txCtr.fetchAdd
    let st := { st with txCtr }
    if txCounterLimit ≤ ctr then (.error ⟨.other, "sealed counter exhausted"⟩, st)
    else
      let aad := outerTypeSealed :: leBytes 8 ctr
      let st := { st with txNonces := nonce st.txSalt ctr :: st.txNonces }
      match aead.encrypt st.tx (nonce st.txSalt ctr) aad inner with
      | none => (.error ⟨.other, "seal failed"⟩, st)
      | some (cipher, tag) => (.ok (aad ++ cipher ++ tag), st)

/-- The counter a sealed datagram carries. -/
def counterOf (buf : Bytes) : Nat := ofLeBytes ((buf.drop 1).take 8)

/-- A sealed datagram's inner one, if authentic and no replay. -/
def openDatagram (st : SealState Key) (buf : Bytes) : Option Bytes × SealState Key :=
  let n := buf.length
  if n < sealOverhead || buf.head? != some outerTypeSealed then (none, st)
  else
    let ctr := counterOf buf
    let body := (buf.drop outerHeader).take (n - sealOverhead)
    match aead.decrypt st.rx (nonce st.rxSalt ctr) (buf.take outerHeader) body
        (buf.drop (n - tagLen)) with
    | none => (none, st)
    | some inner =>
      let (accepted, rxWin) := st.rxWin.accept ctr
      (if accepted then some inner else none, { st with rxWin })

/-- Learns the peer from the source of a datagram that opened. -/
def learnPeer (st : SealState Key) (src : SocketAddr) (now : Nat) : SealState Key :=
  match st.peer with
  | none => { st with peer := some (src, now) }
  | some (cur, last) =>
    if cur = src then { st with peer := some (cur, now) }
    else if peerMigrateSilence < now - last then { st with peer := some (src, now) }
    else st

end SealState

/-- A datagram read: its bytes, where it came from, and when. -/
structure Arrival where
  datagram : Bytes
  src : SocketAddr
  time : Nat

/-- A datagram put on the wire, and its destination. -/
abbrev Sent := SocketAddr × Bytes

/-- A media socket in its sealed mode. -/
structure SealedSocket (Key : Type) where
  st : SealState Key
  /-- Our sender id as it is on the wire. -/
  selfId : Bytes
  epoch : Nat
  /-- Milliseconds from `epoch` to the last datagram that opened. -/
  lastRxMs : Nat := 0
  /-- The datagrams that opened, the last one first. -/
  opened : List Arrival := []

/-- A sender id padded to its width on the wire. -/
def padId (id : Bytes) : Bytes :=
  id.take senderIdSize ++ List.replicate (senderIdSize - id.length) 0

/-- A ping on the wire: type, sender, sequence 0, size 8, the time sent. -/
def newPing (id : Bytes) (timestampNs : Nat) : Bytes :=
  packetTypePing :: (padId id ++ leBytes 2 0 ++ leBytes 2 8 ++ leBytes 8 timestampNs)

namespace SealedSocket

def sealedSocket (tx rx : Key) (txSalt rxSalt selfId : Bytes) (now : Nat) : SealedSocket Key where
  st := { tx, rx, txSalt, rxSalt }
  selfId := padId selfId
  epoch := now

/-- Notes that a datagram opened. -/
def touchRx (s : SealedSocket Key) (a : Arrival) : SealedSocket Key :=
  { s with lastRxMs := (a.time - s.epoch) / 10 ^ 6, opened := a :: s.opened }

/-- Locks the peer address. -/
def setPeer (s : SealedSocket Key) (addr : SocketAddr) (now : Nat) : SealedSocket Key :=
  { s with st := { s.st with peer := some (addr, now) } }

/-- Seals a datagram and sends it, without touching the peer. -/
def sendProbeTo (s : SealedSocket Key) (inner : Bytes) (dest : SocketAddr) :
    Except IoError Sent × SealedSocket Key :=
  let (out, st) := s.st.sealDatagram aead inner
  (out.map (dest, ·), { s with st })

def send (s : SealedSocket Key) (inner : Bytes) : Except IoError Sent × SealedSocket Key :=
  match s.st.peer with
  | none => (.error ⟨.notConnected, "no peer yet"⟩, s)
  | some (dest, _) => s.sendProbeTo aead inner dest

/-- A ping of the peer's, not the echo of ours. -/
def isPeerPing (s : SealedSocket Key) (inner : Bytes) : Bool :=
  senderIdSize < inner.length && inner.head? == some packetTypePing &&
    (inner.drop 1).take senderIdSize != s.selfId

/-- Echoes a ping to where it came from; a failure to seal drops it. -/
def reflect (s : SealedSocket Key) (inner : Bytes) (dest : SocketAddr) :
    List Sent × SealedSocket Key :=
  match s.sendProbeTo aead inner dest with
  | (.ok sent, s) => ([sent], s)
  | (.error _, s) => ([], s)

/-- One turn of the receive loop: what it surfaces, if anything. -/
def recvOne (s : SealedSocket Key) (a : Arrival) :
    Option Bytes × List Sent × SealedSocket Key :=
  match s.st.openDatagram aead a.datagram with
  | (none, st) => (none, [], { s with st })
  | (some inner, st) =>
    let s := { s with st }.touchRx a
    let s := { s with st := s.st.learnPeer a.src a.time }
    if s.isPeerPing inner then
      let (sent, s) := s.reflect aead inner a.src
      (none, sent, s)
    else (some inner, [], s)

/-- The receive loop with `skips` turns left, into `bufLen` bytes. -/
def recvLoop (bufLen : Nat) : (skips : Nat) → List (Except IoError Arrival) → SealedSocket Key →
    Except IoError Bytes × List Sent × SealedSocket Key
  | 0, _, s => (.ok [], [], s)
  | _ + 1, [], s => (.error ⟨.wouldBlock, ""⟩, [], s)
  | _ + 1, .error e :: _, s => (.error e, [], s)
  | skips + 1, .ok a :: reads, s =>
    match s.recvOne aead a with
    | (some inner, sent, s) => (.ok (inner.take bufLen), sent, s)
    | (none, sent, s) =>
      let (out, rest, s) := recvLoop bufLen skips reads s
      (out, sent ++ rest, s)

/-- Receives one inner datagram from the peer. -/
def recv (s : SealedSocket Key) (reads : List (Except IoError Arrival)) (bufLen : Nat) :
    Except IoError Bytes × List Sent × SealedSocket Key :=
  recvLoop aead bufLen maxSkippedPerRecv reads s

/-- The receive loop during the punch: the first datagram that opens. -/
def recvProbeLoop (bufLen : Nat) : (skips : Nat) → List (Except IoError Arrival) →
    SealedSocket Key → Except IoError (Bytes × SocketAddr) × SealedSocket Key
  | 0, _, s => (.error ⟨.wouldBlock, ""⟩, s)
  | _ + 1, [], s => (.error ⟨.wouldBlock, ""⟩, s)
  | _ + 1, .error e :: _, s => (.error e, s)
  | skips + 1, .ok a :: reads, s =>
    match s.st.openDatagram aead a.datagram with
    | (none, st) => recvProbeLoop bufLen skips reads { s with st }
    | (some inner, st) => (.ok (inner.take bufLen, a.src), { s with st }.touchRx a)

/-- Receives one inner datagram without learning the peer from it. -/
def recvProbe (s : SealedSocket Key) (reads : List (Except IoError Arrival)) (bufLen : Nat) :
    Except IoError (Bytes × SocketAddr) × SealedSocket Key :=
  recvProbeLoop aead bufLen maxSkippedPerRecv reads s

end SealedSocket
end Decibell
