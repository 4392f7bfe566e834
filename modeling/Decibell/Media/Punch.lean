import Decibell.Media.MediaSocket

/-!
# The hole punch

Before a call's socket is used, both ends spray sealed pings at each other's candidate
addresses and listen: the source of a datagram that opens is a path. The first such path
starts a grace period in which a path on the local network may still turn up; then the
peer address is locked.
-/

namespace Decibell

open Lib

/-- Where a candidate address comes from. -/
inductive CandidateKind
  | host
  | srflx
deriving DecidableEq

/-- An address the peer may be at. -/
structure RemoteCandidate where
  addr : SocketAddr
  kind : CandidateKind

/-- A path that proved itself, with our own ping's round trip. -/
structure ValidatedPath where
  addr : SocketAddr
  kind : CandidateKind
  rttNs : Option Nat

/-- Why there is no path. -/
inductive PunchError
  | noPath
  | aborted
  | io (message : String)

/-- How long a local path may still displace the first, in nanoseconds. -/
def grace : Nat := 300 * 10 ^ 6

/-- The pause after a spray. -/
def tickInterval (tick : Nat) : Nat :=
  if tick < 10 then 50 * 10 ^ 6 else if tick < 20 then 200 * 10 ^ 6 else 500 * 10 ^ 6

/-- The private, loopback and link-local addresses of version 4. -/
def isPrivateV4 : SocketAddr → Bool
  | .v4 a b _ _ _ =>
    a = 10 || (a = 172 && 16 ≤ b && b ≤ 31) || (a = 192 && b = 168) || a = 127 ||
      (a = 169 && b = 254)
  | .v6 .. => false

/-- The variables of the loop. -/
structure Punch where
  selfId : Bytes
  remote : List RemoteCandidate
  deadline : Nat
  start : Nat
  tick : Nat := 0
  nextSend : Nat
  validated : List ValidatedPath := []
  firstValidatedAt : Option Nat := none

/-- What a turn of the loop reads: the stop flag, the instants, the ping's time and its echo's, and
    the datagrams. -/
structure PunchTurn where
  stop : Bool
  now : Nat
  pingNs : Nat
  reads : List (Except IoError Arrival)
  echoNs : Nat
  validatedAt : Nat
  lockedAt : Nat

/-- The capacity of a receive buffer. -/
def recvBufSize : Nat := 2048

/-- Where the loop stands after a turn. -/
inductive PunchStatus
  | running (p : Punch)
  | ended (result : Except PunchError ValidatedPath)

variable {Key : Type} (aead : Aead Key)

namespace Punch

/-- The loop at its start. -/
def begin (selfId : Bytes) (remote : List RemoteCandidate) (deadline start : Nat) : Punch :=
  { selfId, remote, deadline, start, nextSend := start }

/-- Sends a datagram to some addresses; failures are dropped. -/
def spray (inner : Bytes) : List SocketAddr → SealedSocket Key → SealedSocket Key
  | [], s => s
  | dest :: rest, s => spray inner rest (s.sendProbeTo aead inner dest).2

def pingDue (p : Punch) (t : PunchTurn) (s : SealedSocket Key) : Punch × SealedSocket Key :=
  if p.nextSend ≤ t.now then
    ({ p with nextSend := t.now + tickInterval p.tick, tick := p.tick + 1 },
      spray aead (newPing p.selfId t.pingNs) (p.remote.map (·.addr)) s)
  else (p, s)

/-- Notes that a path proved itself. -/
def validate (p : Punch) (src : SocketAddr) (rttNs : Option Nat) (validatedAt : Nat) : Punch :=
  if p.validated.any (·.addr = src) then
    { p with validated := p.validated.map fun v =>
        if v.addr = src ∧ v.rttNs = none then { v with rttNs } else v }
  else
    let kind := ((p.remote.find? (·.addr = src)).map (·.kind)).getD .srflx
    { p with
      validated := p.validated ++ [⟨src, kind, rttNs⟩]
      firstValidatedAt := p.firstValidatedAt.or (some validatedAt) }

/-- An opened datagram: a peer's ping is reflected, our echo gives the round trip, and its source is
    a path. -/
def probed (p : Punch) (t : PunchTurn) (inner : Bytes) (src : SocketAddr) (s : SealedSocket Key) :
    Punch × SealedSocket Key :=
  let isPing := senderIdSize < inner.length && inner.head? == some packetTypePing
  let fromSelf := isPing && (inner.drop 1).take senderIdSize == padId p.selfId
  if isPing && !fromSelf then
    (p.validate src none t.validatedAt, (s.sendProbeTo aead inner src).2)
  else
    let sent := ofLeBytes ((inner.drop 37).take 8)
    let rttNs := if fromSelf && 45 ≤ inner.length && sent < t.echoNs then some (t.echoNs - sent)
      else none
    (p.validate src rttNs t.validatedAt, s)

/-- The path to lock: a host candidate on a private address, else the first. -/
def best (validated : List ValidatedPath) : Option ValidatedPath :=
  (validated.find? fun v => v.kind = .host && isPrivateV4 v.addr).or validated.head?

/-- The end of the loop. -/
def finish (p : Punch) (t : PunchTurn) (s : SealedSocket Key) : PunchStatus × SealedSocket Key :=
  match best p.validated with
  | none => (.ended (.error .noPath), s)
  | some v => (.ended (.ok v), s.setPeer v.addr t.lockedAt)

/-- One turn of the loop. -/
def punchTurn (p : Punch) (t : PunchTurn) (s : SealedSocket Key) :
    PunchStatus × SealedSocket Key :=
  if t.stop then (.ended (.error .aborted), s)
  else if p.deadline ≤ t.now - p.start then p.finish t s
  else if (p.firstValidatedAt.map fun t₀ => decide (grace ≤ t.now - t₀)) == some true then
    p.finish t s
  else
    let (p, s) := p.pingDue aead t s
    match s.recvProbe aead t.reads recvBufSize with
    | (.ok (inner, src), s) =>
      let (p, s) := p.probed aead t inner src s
      (.running p, s)
    | (.error _, s) => (.running p, s)

end Punch

/-- The loop over its turns; none if it is still running. -/
def punchLoop (p : Punch) (s : SealedSocket Key) :
    List PunchTurn → Option (Except PunchError ValidatedPath) × SealedSocket Key
  | [] => (none, s)
  | t :: turns =>
    match p.punchTurn aead t s with
    | (.running p, s) => punchLoop p s turns
    | (.ended r, s) => (some r, s)

def punch (s : SealedSocket Key) (selfId : Bytes) (remote : List RemoteCandidate)
    (deadline start : Nat) (turns : List PunchTurn) :
    Option (Except PunchError ValidatedPath) × SealedSocket Key :=
  if remote.isEmpty then (some (.error .noPath), s)
  else punchLoop aead (.begin selfId remote deadline start) s turns

end Decibell
