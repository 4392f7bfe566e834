import Decibell.Central.Presence
import Mathlib.Logic.Function.Basic
import Mathlib.Tactic.Common

/-!
# The connection directory

The connections of the central server, the accounts that are signed in on them, who watches
whom, and the calls being set up. Everything is behind one mutex: each function here is one
critical section, or a part of one. What a section has to send is gathered in a `Fanout`,
which is sent once the mutex is released.
-/

namespace Decibell.Central

open Function

structure Connection where
  /-- The account it is signed in as; 0 before that. -/
  uid : Int := 0
  deviceId : String := ""
  idle : Bool := false
  watching : List Int := []
deriving DecidableEq

structure Account where
  /-- Its signed-in connections, in sign-in order. -/
  sessions : List Nat
  presence : Presence
deriving DecidableEq

/-- A call of two accounts. A side whose connection left is `none`, with its device id. -/
structure Call where
  callerUid : Int
  calleeUid : Int
  callerName : String := ""
  calleeName : String := ""
  caller : Option Nat
  callerDevice : String
  ringing : List Nat
  callee : Option Nat := none
  calleeDevice : String := ""
  answered : Bool := false
  /-- A ringing device said so to the caller. -/
  rang : Bool := false
  /-- A ringing device is busy. -/
  busy : Bool := false
  started : Int
  /-- When a side of an answered call left, unless both are here. -/
  detached : Option Int := none
deriving DecidableEq

/-- The calls of each connection. -/
abbrev CallIndex := Nat → List String

/-- The calls, by call id, and by the connections that are in them. -/
structure CallRegistry where
  calls : String → Option Call := fun _ => none
  callIndex : CallIndex := fun _ => []

/-- The directory. Connections are numbers; no entry means no watchers. -/
structure SessionManager extends CallRegistry where
  sessions : Nat → Option Connection := fun _ => none
  accounts : Int → Option Account := fun _ => none
  watchers : Int → List Nat := fun _ => []
  renameEpoch : Nat := 0

/-- Unix seconds, and the steady clock in nanoseconds. -/
structure Clock where
  unix : Int := 0
  steady : Int := 0

/-- Most accounts one connection may watch. -/
def maxWatch : Nat := 5000

/-- Most connections one account may have. -/
def maxDevices : Nat := 8

/-- What an answer may take, well under the frame cap. -/
def maxResponseBytes : Nat := 1536 * 1024

def removeFrom (list : List Nat) (s : Nat) : List Nat := list.filter (· ≠ s)

@[simp] theorem mem_removeFrom {list : List Nat} {s s' : Nat} :
    s' ∈ removeFrom list s ↔ s' ∈ list ∧ s' ≠ s := by
  simp [removeFrom]

/-! ## The index of the calls -/

namespace CallIndex

variable (ix : CallIndex)

def indexCall (id : String) : Option Nat → CallIndex
  | none => ix
  | some s => if id ∈ ix s then ix else update ix s (ix s ++ [id])

def unindexCall (id : String) : Option Nat → CallIndex
  | none => ix
  | some s => update ix s ((ix s).filter (· ≠ id))

def indexCalls (id : String) (ss : List Nat) : CallIndex :=
  ss.foldl (fun ix s => ix.indexCall id (some s)) ix

def unindexCalls (id : String) (ss : List Nat) : CallIndex :=
  ss.foldl (fun ix s => ix.unindexCall id (some s)) ix

end CallIndex

namespace CallRegistry

def setCall (r : CallRegistry) (id : String) (c : Call) : CallRegistry :=
  { r with calls := update r.calls id (some c) }

def eraseCall (r : CallRegistry) (id : String) : CallRegistry :=
  match r.calls id with
  | none => r
  | some c =>
    { calls := update r.calls id none
      callIndex := ((r.callIndex.unindexCall id c.caller).unindexCall id c.callee).unindexCalls id
        c.ringing }

end CallRegistry

namespace SessionManager

variable (d : SessionManager) (now : Clock)

/-! ## Looking things up -/

def watcherSessions (uid : Int) : List Nat := d.watchers uid

/-- The account's connection from a device, other than one. -/
def deviceSession (uid : Int) (device : String) (except : Option Nat) : Option Nat :=
  if device = "" then none
  else
    match d.accounts uid with
    | none => none
    | some a => a.sessions.find? fun s =>
        some s ≠ except ∧ (d.sessions s).any (·.deviceId = device)

def setConnection (s : Nat) (f : Connection → Connection) : SessionManager :=
  { d with sessions := update d.sessions s ((d.sessions s).map f) }

def setAccount (uid : Int) (a : Option Account) : SessionManager :=
  { d with accounts := update d.accounts uid a }

/-- Whether all the connections of an account are idle. -/
def allIdle (ss : List Nat) : Bool := ss ≠ [] ∧ ss.all fun s => (d.sessions s).any (·.idle)

def recomputeIdle (a : Account) : Account :=
  { a with presence := { a.presence with idle := d.allIdle a.sessions } }

/-- A change is told to the watchers as a delta, to the account's other connections as its state. -/
def presenceChanged (uid : Int) (a : Account) (before : Presence) (except : Option Nat)
    (out : Fanout) : Fanout :=
  let p := a.presence
  let out := if presenceViewDiffers p before then
    out.add (d.watcherSessions uid) (presenceDelta uid p.username (some p)) else out
  if ownViewDiffers p before then
    out.add (a.sessions.filter (some · ≠ except)) (ownPresence now.unix p) else out

/-! ## Calls of a connection that leaves -/

def reattachCaller (except : Option Nat) (id : String) (c : Call) (ix : CallIndex) :
    Call × CallIndex :=
  if c.caller = none then
    let back := d.deviceSession c.callerUid c.callerDevice except
    ({ c with caller := back }, ix.indexCall id back)
  else (c, ix)

def reattachCallee (except : Option Nat) (id : String) (c : Call) (ix : CallIndex) :
    Call × CallIndex :=
  if c.answered ∧ c.callee = none then
    let back := d.deviceSession c.calleeUid c.calleeDevice except
    ({ c with callee := back }, ix.indexCall id back)
  else (c, ix)

/-- An answered call without a side waits from now on, unless it does. -/
def waiting (c : Call) : Call :=
  if c.caller ≠ none ∧ (c.callee ≠ none ∨ ¬ c.answered) then { c with detached := none }
  else if c.answered ∧ c.detached = none then { c with detached := some now.steady }
  else c

/-- The same device, signed in again, takes the side it left. -/
def reattach (except : Option Nat) (id : String) (c : Call) (ix : CallIndex) : Call × CallIndex :=
  let (c, ix) := d.reattachCaller except id c ix
  let (c, ix) := d.reattachCallee except id c ix
  (waiting now c, ix)

/-- A call that connection `s` was in, without it. -/
def callWithout (s : Nat) (c : Call) : Call :=
  let c := if c.caller = some s then { c with caller := none } else c
  if c.callee = some s then { c with callee := none } else c

/-- A ringing device that signed in again keeps ringing there. -/
def ringAgain (s : Nat) (device id : String) (c : Call) (ix : CallIndex) : Call × CallIndex :=
  let ringing := removeFrom c.ringing s
  match d.deviceSession c.calleeUid device (some s) with
  | some back =>
    if back ∈ ringing then ({ c with ringing }, ix)
    else ({ c with ringing := ringing ++ [back] }, ix.indexCall id (some back))
  | none => ({ c with ringing }, ix)

/-- A call that a connection leaves: that side moves to its device's other connection, or waits for
    the device. -/
def leftCall (s : Nat) (device id : String) (c : Call) (ix : CallIndex) : Call × CallIndex :=
  let (c, ix) := d.reattach now (some s) id (callWithout s c) ix
  if s ∈ c.ringing then d.ringAgain s device id c ix else (c, ix)

/-- What becomes of one call of a connection that leaves. -/
def leaveCall (s : Nat) (device : String) (r : CallRegistry × Fanout) (id : String) :
    CallRegistry × Fanout :=
  match r.1.calls id with
  | none => r
  | some c =>
    let rang := s ∈ c.ringing
    let (c, ix) := d.leftCall now s device id c r.1.callIndex
    let reg : CallRegistry := { r.1 with callIndex := ix }.setCall id c
    if rang ∧ ¬ c.answered ∧ c.ringing = [] then
      -- No device of the callee can ring any more.
      let out := if c.busy then
        r.2.add c.caller.toList (callFrame now.unix .busy id c.calleeName c.calleeUid c.callerName
          c.callerUid) else r.2
      (reg.eraseCall id, out)
    else if c.answered ∧ c.caller = none ∧ c.callee = none then (reg.eraseCall id, r.2)
    else (reg, r.2)

def callLeave (s : Nat) (device : String) : SessionManager × Fanout :=
  let r : CallRegistry := { calls := d.calls, callIndex := update d.callIndex s [] }
  let (r, out) := (d.callIndex s).foldl (d.leaveCall now s device) (r, [])
  ({ d with toCallRegistry := r }, out)

/-! ## Signing out -/

def unwatchAll (s : Nat) (conn : Connection) : SessionManager :=
  { d with watchers := fun target =>
      if target ∈ conn.watching then removeFrom (d.watchers target) s else d.watchers target }
    |>.setConnection s fun c => { c with watching := [] }

def signOut (s : Nat) (conn : Connection) : SessionManager × Fanout :=
  let uid := conn.uid
  let (d, out) := (d.unwatchAll s conn).callLeave now s conn.deviceId
  let d := d.setConnection s fun c => { c with uid := 0 }
  if uid ≤ 0 then (d, out)
  else
    match d.accounts uid with
    | none => (d, out)
    | some a =>
      let rest := removeFrom a.sessions s
      if rest.length = a.sessions.length then (d, out)
      else if rest = [] then
        -- The last device: an invisible account's disconnect says nothing.
        let out := if a.presence.visible then
          out.add (d.watcherSessions uid) (presenceDelta uid a.presence.username none) else out
        (d.setAccount uid none, out)
      else
        let a' := d.recomputeIdle { a with sessions := rest }
        (d.setAccount uid (some a'), d.presenceChanged now uid a' a.presence none out)

/-! ## Connections -/

def join (s : Nat) : SessionManager :=
  if d.sessions s = none then { d with sessions := update d.sessions s (some {}) } else d

def forget (s : Nat) : SessionManager := { d with sessions := update d.sessions s none }

def leave (s : Nat) : SessionManager × Fanout :=
  match d.sessions s with
  | none => (d, [])
  | some conn =>
    let (d, out) := d.signOut now s conn
    (d.forget s, out)

/-- The connection is told why, before anyone else hears of it. -/
def retire (s : Nat) (reason : CloseReason) : SessionManager × Fanout :=
  match d.sessions s with
  | none => (d, [])
  | some conn =>
    let (d, out) := d.signOut now s conn
    (d.forget s, ([s], .sessionClosed reason) :: out)

/-- The connections of an account but one. -/
def otherSessions (uid : Int) (keep : Option Nat) : List Nat :=
  match d.accounts uid with
  | none => []
  | some a => a.sessions.filter (some · ≠ keep)

/-- Those of them that are on some devices. -/
def deviceSessions (uid : Int) (devices : List String) (keep : Option Nat) : List Nat :=
  (d.otherSessions uid keep).filter fun s => (d.sessions s).any (·.deviceId ∈ devices)

/-- Connections are retired in turn, where nothing happens in between. -/
def retireAll (reason : CloseReason) (ss : List Nat) : SessionManager × Fanout :=
  ss.foldl (fun (d, out) s =>
    let (d, more) := d.retire now s reason
    (d, out ++ more)) (d, [])

def closeOtherSessions (uid : Int) (keep : Option Nat) (reason : CloseReason) :
    SessionManager × Fanout :=
  d.retireAll now reason (d.otherSessions uid keep)

def closeDeviceSessions (uid : Int) (devices : List String) (keep : Option Nat)
    (reason : CloseReason) : SessionManager × Fanout :=
  d.retireAll now reason (d.deviceSessions uid devices keep)

/-- What a sign-in comes to. -/
structure Bound where
  manager : SessionManager
  ok : Bool := false
  full : Bool := false
  /-- The account's previous connection from the same device. -/
  replaced : Option Nat := none
  presence : Presence := {}
  /-- The answer, posted to the connection under the lock. -/
  answer : Option Packet := none
  out : Fanout := []

/-- The connection takes its place beside the account's others. -/
def bindBeside (s : Nat) (uid : Int) (device : String) (presence : Presence) (a : Account)
    (reply : Packet) (rebuild : Presence → Packet) (replaced : Option Nat) (out : Fanout) : Bound :=
  let d := d.setConnection s fun c => { c with uid, deviceId := device, idle := false }
  let a' := d.recomputeIdle { a with sessions := a.sessions ++ [s] }
  { manager := d.setAccount uid (some a')
    ok := true
    replaced
    presence := a'.presence
    answer := some (if loginViewDiffers a.presence presence then rebuild a.presence else reply)
    out := d.presenceChanged now uid a' a.presence (some s) out }

/-- The connection is the first of the account. -/
def bindFresh (s : Nat) (uid : Int) (device : String) (presence : Presence) (reply : Packet)
    (out : Fanout) : Bound :=
  let presence := { presence with idle := false }
  let d := d.setConnection s fun c => { c with uid, deviceId := device, idle := false }
  { manager := d.setAccount uid (some { sessions := [s], presence })
    ok := true
    presence
    answer := some reply
    out := if presence.visible then
      out.add (d.watcherSessions uid) (presenceDelta uid presence.username (some presence)) else out }

/-- A connection from the same device gives up its place. -/
def strip (old : Nat) : SessionManager :=
  match d.sessions old with
  | none => d
  | some conn => (d.unwatchAll old conn).setConnection old fun c => { c with uid := 0 }

def bind (s : Nat) (uid : Int) (device : String) (presence : Presence) (reply : Packet)
    (rebuild : Presence → Packet) : Bound :=
  match d.sessions s with
  | none => { manager := d }
  | some conn =>
    let (d, out) := if 0 < conn.uid then d.signOut now s conn else (d, [])
    match d.accounts uid with
    | none => d.bindFresh s uid device presence reply out
    | some a =>
      match d.deviceSession uid device none with
      | some old =>
        (d.strip old).bindBeside now s uid device presence
          { a with sessions := removeFrom a.sessions old } reply rebuild (some old) out
      | none =>
        if maxDevices ≤ a.sessions.length then { manager := d, full := true }
        else d.bindBeside now s uid device presence a reply rebuild none out

/-! ## Presence -/

def isUserVisible (uid : Int) : Bool := (d.accounts uid).any (·.presence.visible)

def updatePresence (uid : Int) (change : Presence → Presence) : SessionManager × Fanout :=
  match d.accounts uid with
  | none => (d, [])
  | some a =>
    let a' := { a with presence := change a.presence }
    (d.setAccount uid (some a'), d.presenceChanged now uid a' a.presence none [])

/-- What the sweep does about the message of one account. -/
def expireStatusMessage (uid : Int) : SessionManager × Fanout :=
  match d.accounts uid with
  | none => (d, [])
  | some a =>
    if a.presence.statusExpiresAt ≤ 0 ∨ now.unix < a.presence.statusExpiresAt then (d, [])
    else d.updatePresence now uid fun p =>
      { p with statusText := "", statusEmoji := "", statusExpiresAt := 0 }

def setIdle (s : Nat) (idle : Bool) : SessionManager × Fanout :=
  match d.sessions s with
  | none => (d, [])
  | some conn =>
    if conn.uid ≤ 0 ∨ conn.idle = idle then (d, [])
    else
      let d := d.setConnection s fun c => { c with idle }
      match d.accounts conn.uid with
      | none => (d, [])
      | some a =>
        let a' := d.recomputeIdle a
        (d.setAccount conn.uid (some a'), d.presenceChanged now conn.uid a' a.presence none [])

/-- The first of the accounts asked for, as many as may be watched. -/
def watchSet (uids : List Int) : List Int :=
  uids.foldl (fun next target =>
    if maxWatch ≤ next.length then next
    else if 0 < target ∧ target ∉ next then next ++ [target] else next) []

/-- A subscription begins: the set is replaced, and the new ones are to be answered. -/
def watch (s : Nat) (uid : Int) (uids : List Int) : SessionManager × List Int :=
  match d.sessions s with
  | none => (d, [])
  | some conn =>
    if conn.uid ≠ uid then (d, [])
    else
      let next := watchSet uids
      ({ d with watchers := fun target =>
          if target ∈ next then
            if target ∈ conn.watching then d.watchers target else d.watchers target ++ [s]
          else if target ∈ conn.watching then removeFrom (d.watchers target) s
          else d.watchers target }.setConnection s fun c => { c with watching := next },
        next.filter (· ∉ conn.watching))

/-- One account in an answer, with its bytes; a signed-in account's picture is the directory's, else
    the stored one. -/
def answerFor (stored : Int → String) (target : Int) (update : PresenceUpdate) :
    PresenceUpdate × Nat :=
  let update := { update with coveredUids := update.coveredUids ++ [target] }
  let version := match d.accounts target with
    | some other => other.presence.avatarVersion
    | none => stored target
  match (d.accounts target).filter (·.presence.visible) with
  | some other =>
    let entry := fillPresence target other.presence
    ({ update with users := update.users ++ [entry] }, 10 + entry.byteSizeLong + 3)
  | none =>
    if version = "" then (update, 10)
    else
      let avatar : AvatarVersion := { uid := target, version }
      ({ update with avatars := update.avatars ++ [avatar] }, 10 + avatar.byteSizeLong + 2)

/-- The answers, each of them cut once it is long enough. -/
def answers (stored : Int → String) : List Int → PresenceUpdate → Nat → List Packet
  | [], part, _ => if part.coveredUids = [] then [] else [.presenceUpdate part]
  | target :: rest, part, bytes =>
    if maxResponseBytes ≤ bytes then
      let (next, size) := d.answerFor stored target {}
      .presenceUpdate part :: answers stored rest next size
    else
      let (next, size) := d.answerFor stored target part
      answers stored rest next (bytes + size)

/-- A subscription's second part: what the connection is sent. -/
def watchAnswer (s : Nat) (uid : Int) (added : List Int) (stored : Int → String) : List Packet :=
  match d.sessions s with
  | none => []
  | some conn =>
    if conn.uid ≠ uid then []
    else d.answers stored (added.filter (· ∈ conn.watching)) {} 0

/-- The account's watchers and its connections but one, once each. -/
def withOwn (watchers own : List Nat) (sender : Nat) : List Nat :=
  watchers ++ own.filter fun s => s ≠ sender ∧ s ∉ watchers

def pushUserRenamed (uid : Int) (username : String) (sender : Nat) : SessionManager × Fanout :=
  let watchers := d.watcherSessions uid
  let frame := Packet.userRenamed uid username
  match d.accounts uid with
  | none => ({ d with renameEpoch := d.renameEpoch + 1 }, Fanout.add [] watchers frame)
  | some a =>
    ({ d.setAccount uid (some { a with presence := { a.presence with username } }) with
        renameEpoch := d.renameEpoch + 1 },
      Fanout.add [] (withOwn watchers a.sessions sender) frame)

def pushAvatarChanged (uid : Int) (version : String) (sender : Nat) : SessionManager × Fanout :=
  let watchers := d.watcherSessions uid
  match d.accounts uid with
  | none => (d, Fanout.add [] watchers (.avatarChanged uid "" version))
  | some a =>
    (d.setAccount uid (some { a with presence := { a.presence with avatarVersion := version } }),
      Fanout.add [] (withOwn watchers a.sessions sender)
        (.avatarChanged uid a.presence.username version))

end SessionManager

end Decibell.Central
