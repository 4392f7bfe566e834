import Decibell.Central.Consistency

/-!
# Calls

The registry of the calls between two accounts, by the ids that the callers give them.

* an `INVITE` rings every connection of the callee; the first to answer takes the call, and
  the others are told;
* after that, signals go only between the two connections in the call, and a side that
  left may come back from the same device.
-/

namespace Decibell.Central

open Function Lib

/-- How long an unanswered call is kept, in nanoseconds. -/
def ringKeep : Int := 90 * 10 ^ 9

/-- How long an answered call waits for a side that left. -/
def detachedKeep : Int := 120 * 10 ^ 9

/-- Calls one connection may be placing at once. -/
def maxCallsPerCaller : Nat := 4

/-- What becomes of a signal. -/
inductive CallRoute
  | sent
  /-- An `INVITE` to an account without connections. -/
  | offline
  | dropped
deriving DecidableEq

namespace SessionManager

variable (d : SessionManager) (now : Clock)

def putCall (id : String) (c : Call) (ix : CallIndex) : CallRegistry :=
  { d.toCallRegistry with callIndex := ix }.setCall id c

/-- The connection on the other side, or the one its device came back on. -/
def target (side : Call → Option Nat) (id : String) (c : Call) (ix : CallIndex) :
    List Nat × Call × CallIndex :=
  let (c, ix) := if side c = none then d.reattach now none id c ix else (c, ix)
  ((side c).toList, c, ix)

/-- A notice to the callee's other devices. -/
def elsewhere (kind : CallKind) (id : String) (c : Call) : Packet :=
  callFrame now.unix kind id c.callerName c.callerUid c.calleeName c.calleeUid

/-- A call is placed: it rings every connection of the callee. -/
def invite (s : Nat) (fromUid toUid : Int) (device : String) (sig : CallSignal) :
    CallRoute × CallRegistry × Fanout :=
  let placing := (d.callIndex s).filter fun other => (d.calls other).any (·.caller = some s)
  if sig.callId = "" ∨ (d.calls sig.callId).isSome then (.dropped, d.toCallRegistry, [])
  else if maxCallsPerCaller ≤ placing.length then (.dropped, d.toCallRegistry, [])
  else
    match d.accounts toUid with
    | none => (.offline, d.toCallRegistry, [])
    | some a =>
      if a.sessions = [] then (.offline, d.toCallRegistry, [])
      else
        let c : Call :=
          { callerUid := fromUid
            calleeUid := toUid
            callerName := sig.fromName
            calleeName := sig.toName
            caller := some s
            callerDevice := device
            ringing := a.sessions
            started := now.steady }
        (.sent, d.putCall sig.callId c ((d.callIndex.indexCall sig.callId (some s)).indexCalls
          sig.callId c.ringing), Fanout.add [] c.ringing (.callSignal sig))

def fromCaller (s : Nat) (device : String) (sig : CallSignal) (c : Call) :
    CallRoute × CallRegistry × Fanout :=
  let id := sig.callId
  -- Only the device that placed the call, signing back in.
  if c.caller ≠ some s ∧ (c.caller ≠ none ∨ device = "" ∨ device ≠ c.callerDevice) then
    (.dropped, d.toCallRegistry, [])
  else
    let ix := if c.caller = some s then d.callIndex else d.callIndex.indexCall id (some s)
    let c := { c with caller := some s }
    match sig.kind with
    | .cancel | .hangup =>
      let (recipients, c, ix) :=
        if c.answered then d.target now (·.callee) id c ix else (c.ringing, c, ix)
      (.sent, (d.putCall id c ix).eraseCall id, Fanout.add [] recipients (.callSignal sig))
    | .streamStart | .streamStop =>
      if c.answered then
        let (recipients, c, ix) := d.target now (·.callee) id c ix
        (.sent, d.putCall id c ix, Fanout.add [] recipients (.callSignal sig))
      else (.dropped, d.putCall id c ix, [])
    | _ => (.dropped, d.putCall id c ix, [])

/-- A signal of the callee's account about a call that still rings. -/
def fromRinging (s : Nat) (device : String) (sig : CallSignal) (c : Call) :
    CallRoute × CallRegistry × Fanout :=
  let id := sig.callId
  let others := c.ringing.filter (· ≠ s)
  if s ∉ c.ringing then (.dropped, d.toCallRegistry, [])
  else
    match sig.kind with
    | .ringing =>
      if c.rang then (.sent, d.toCallRegistry, [])
      else
        let (recipients, c, ix) := d.target now (·.caller) id { c with rang := true } d.callIndex
        (.sent, d.putCall id c ix, Fanout.add [] recipients (.callSignal sig))
    | .busy =>
      -- Heard only once no device of the callee can ring.
      let c := { c with busy := true, ringing := removeFrom c.ringing s }
      let ix := d.callIndex.unindexCall id (some s)
      if c.ringing = [] then
        let (recipients, c, ix) := d.target now (·.caller) id c ix
        (.sent, (d.putCall id c ix).eraseCall id, Fanout.add [] recipients (.callSignal sig))
      else (.sent, d.putCall id c ix, [])
    | .accept =>
      -- The first to answer takes the call.
      let c := { c with answered := true, callee := some s, calleeDevice := device }
      let (c, ix) := d.reattach now none id c d.callIndex
      let ix := ix.unindexCalls id others
      let c := { c with ringing := [] }
      let out := Fanout.add [] others (elsewhere now .answeredElsewhere id c)
      let (recipients, c, ix) := d.target now (·.caller) id c ix
      (.sent, d.putCall id c ix, out.add recipients (.callSignal sig))
    | .reject | .hangup =>
      let (recipients, c, ix) := d.target now (·.caller) id c d.callIndex
      let out := (Fanout.add [] recipients (.callSignal sig)).add others
        (elsewhere now .declinedElsewhere id c)
      (.sent, (d.putCall id c ix).eraseCall id, out)
    | _ => (.dropped, d.toCallRegistry, [])

/-- A signal of the callee's account about an answered call. -/
def fromCallee (s : Nat) (device : String) (sig : CallSignal) (c : Call) :
    CallRoute × CallRegistry × Fanout :=
  let id := sig.callId
  if c.callee ≠ some s ∧ (c.callee ≠ none ∨ device = "" ∨ device ≠ c.calleeDevice) then
    -- Another device of the callee: an answer that came too late hears so.
    if sig.kind = .accept then
      (.sent, d.toCallRegistry, Fanout.add [] [s] (elsewhere now .answeredElsewhere id c))
    else (.dropped, d.toCallRegistry, [])
  else
    let ix := if c.callee = some s then d.callIndex else d.callIndex.indexCall id (some s)
    let c := { c with callee := some s }
    match sig.kind with
    | .hangup | .reject =>
      let (recipients, c, ix) := d.target now (·.caller) id c ix
      (.sent, (d.putCall id c ix).eraseCall id, Fanout.add [] recipients (.callSignal sig))
    | .streamStart | .streamStop =>
      let (recipients, c, ix) := d.target now (·.caller) id c ix
      (.sent, d.putCall id c ix, Fanout.add [] recipients (.callSignal sig))
    | _ => (.dropped, d.putCall id c ix, [])

/-- A call with both sides here waits for nobody. -/
def settled (r : CallRegistry) (id : String) : CallRegistry :=
  match r.calls id with
  | none => r
  | some c => if c.caller ≠ none ∧ c.callee ≠ none then r.setCall id { c with detached := none } else r

def routed (s : Nat) (fromUid toUid : Int) (device : String) (sig : CallSignal) :
    CallRoute × CallRegistry × Fanout :=
  if sig.kind = .invite then d.invite now s fromUid toUid device sig
  else
    match d.calls sig.callId with
    | none => (.dropped, d.toCallRegistry, [])
    | some c =>
      let (route, r, out) :=
        if fromUid = c.callerUid ∧ toUid = c.calleeUid then d.fromCaller now s device sig c
        else if ¬ (fromUid = c.calleeUid ∧ toUid = c.callerUid) then (.dropped, d.toCallRegistry, [])
        else if c.answered then d.fromCallee now s device sig c
        else d.fromRinging now s device sig c
      if route = .sent then (route, settled r sig.callId, out) else (route, r, out)

/-- Routes a signal of `s`, signed in as `fromUid`. -/
def routeCall (s : Nat) (fromUid toUid : Int) (sig : CallSignal) :
    CallRoute × SessionManager × Fanout :=
  match d.sessions s with
  | none => (.dropped, d, [])
  | some conn =>
    if conn.uid ≠ fromUid then (.dropped, d, [])
    else
      let (route, r, out) := d.routed now s fromUid toUid conn.deviceId sig
      (route, { d with toCallRegistry := r }, out)

/-- What the sweep does about one call. -/
def sweepCall (id : String) : CallRegistry :=
  match d.calls id with
  | none => d.toCallRegistry
  | some c =>
    -- A side's device may have signed back in without sending anything.
    let (c, ix) := if c.answered ∧ c.detached ≠ none then d.reattach now none id c d.callIndex
      else (c, d.callIndex)
    let stale := if c.answered then c.detached.any fun since => detachedKeep < now.steady - since
      else decide (ringKeep < now.steady - c.started)
    let r := d.putCall id c ix
    if stale then r.eraseCall id else r

def sweepCalls (id : String) : SessionManager := { d with toCallRegistry := d.sweepCall now id }

end SessionManager

/-! ## The server -/

/-- What a connection's handlers know. A connection signs in once. -/
structure Session where
  authenticated : Bool := false
  uid : Int := 0
  deviceId : String := ""
deriving DecidableEq

/-- The directory and the connections' own state; connections are numbered. -/
structure CallState where
  directory : SessionManager := {}
  nextSession : Nat := 0
  session : Nat → Session := fun _ => {}

/-- What concerns the calls; `allowed` is whether the two accounts may signal. -/
inductive CallAct
  | join
  | login (s : Nat) (login : LoginResult) (presence : Presence)
  | leave (s : Nat)
  | retire (s : Nat) (reason : CloseReason)
  | callSignal (s : Nat) (toUid : Int) (kind : CallKind) (callId fromName toName : String)
    (allowed : Bool)
  | sweepCalls (id : String)

/-- The kinds a client may send; the others are the server's own. -/
def CallKind.fromClient : CallKind → Bool
  | .peerOffline | .notAllowed | .answeredElsewhere | .declinedElsewhere => false
  | _ => true

namespace CallState

variable (st : CallState) (now : Clock)

/-- The account and the device a connection has signed in with. -/
def who (s : Nat) : Option (Int × String) :=
  if (st.session s).authenticated then some ((st.session s).uid, (st.session s).deviceId) else none

def join : CallState :=
  { st with directory := st.directory.join st.nextSession, nextSession := st.nextSession + 1 }

/-- A sign-in; a connection that has signed in is not asked again. -/
def login (s : Nat) (login : LoginResult) (presence : Presence) : CallState × Fanout :=
  if (st.session s).authenticated then (st, [])
  else
    let bound := st.directory.bindLogin now s login presence
    let session := if bound.ok then
      update st.session s { authenticated := true, uid := login.uid, deviceId := login.deviceId }
      else st.session
    ({ st with directory := bound.manager, session }, bound.out)

def callSignal (s : Nat) (toUid : Int) (kind : CallKind) (callId fromName toName : String)
    (allowed : Bool) : CallState × Fanout :=
  let uid := (st.session s).uid
  if (st.session s).authenticated ∧ kind.fromClient ∧ toUid ≠ uid ∧ allowed then
    let sig : CallSignal :=
      { kind, callId, fromName, toName, fromUid := uid, toUid, timestamp := now.unix }
    let (_, d, out) := st.directory.routeCall now s uid toUid sig
    ({ st with directory := d }, out)
  else (st, [])

/-- One step, and what it sends. -/
def perform : CallAct → CallState × Fanout
  | .join => (st.join, [])
  | .login s login presence => st.login now s login presence
  | .leave s =>
    let (d, out) := st.directory.leave now s
    ({ st with directory := d }, out)
  | .retire s reason =>
    let (d, out) := st.directory.retire now s reason
    ({ st with directory := d }, out)
  | .callSignal s toUid kind callId fromName toName allowed =>
    st.callSignal now s toUid kind callId fromName toName allowed
  | .sweepCalls id => ({ st with directory := st.directory.sweepCalls now id }, [])

end CallState

/-- The runs, from a server without connections. -/
def callSystem : System CallState (Clock × CallAct) where
  init st := st = {}
  step st a st' := st' = (st.perform a.1 a.2).1

end Decibell.Central
