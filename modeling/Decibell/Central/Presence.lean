import Decibell.Lib.Wire

/-!
# Presence

What an account shows of itself, and the packets in which the central server says so:

* to those who watch the account: whether it is online, with its status, its message, its
  name and its picture. An account whose status is `invisible` looks offline;
* to the account's own connections: the status it chose, its message and its settings.
-/

namespace Decibell.Central

/-- The status an account chooses. -/
inductive PresenceStatus
  | online
  | away
  | dnd
  | invisible
deriving DecidableEq

/-- The presence of a signed-in account. -/
structure Presence where
  username : String := ""
  avatarVersion : String := ""
  status : PresenceStatus := .online
  /-- Auto-away: every device of the account is idle. -/
  idle : Bool := false
  statusText : String := ""
  statusEmoji : String := ""
  /-- When the message goes, in unix seconds; 0 for never. -/
  statusExpiresAt : Int := 0
  dmFriendsOnly : Bool := false
deriving DecidableEq

namespace Presence

variable (p : Presence)

def visible : Bool := p.status ≠ .invisible

/-- What others see of the status. -/
def effective : PresenceStatus := if p.status = .online ∧ p.idle then .away else p.status

end Presence

/-- Whether others see a difference. -/
def presenceViewDiffers (a b : Presence) : Bool :=
  a.visible ≠ b.visible ∨
    (a.visible ∧ (a.effective ≠ b.effective ∨ a.statusText ≠ b.statusText ∨
      a.statusEmoji ≠ b.statusEmoji))

/-- Whether the account's own devices show a difference. -/
def ownViewDiffers (a b : Presence) : Bool :=
  a.status ≠ b.status ∨ a.statusText ≠ b.statusText ∨ a.statusEmoji ≠ b.statusEmoji ∨
    a.statusExpiresAt ≠ b.statusExpiresAt ∨ a.dmFriendsOnly ≠ b.dmFriendsOnly ∨ a.idle ≠ b.idle

/-- Whether the answer to a sign-in would differ. -/
def loginViewDiffers (a b : Presence) : Bool :=
  a.username ≠ b.username ∨ a.status ≠ b.status ∨ a.statusText ≠ b.statusText ∨
    a.statusEmoji ≠ b.statusEmoji ∨ a.statusExpiresAt ≠ b.statusExpiresAt ∨
    a.dmFriendsOnly ≠ b.dmFriendsOnly

/-- What a client may change of its account's presence. -/
inductive PresenceChange
  | dmFriendsOnly (friendsOnly : Bool)
  | status (status : PresenceStatus)
  | statusMessage (text emoji : String) (expiresAt : Int)

def PresenceChange.apply (p : Presence) : PresenceChange → Presence
  | .dmFriendsOnly friendsOnly => { p with dmFriendsOnly := friendsOnly }
  | .status chosen => { p with status := chosen }
  | .statusMessage text emoji expiresAt =>
    { p with statusText := text, statusEmoji := emoji, statusExpiresAt := expiresAt }

theorem PresenceChange.idle_apply (change : PresenceChange) (p : Presence) :
    (change.apply p).idle = p.idle := by
  cases change <;> rfl

theorem PresenceChange.username_apply (change : PresenceChange) (p : Presence) :
    (change.apply p).username = p.username := by
  cases change <;> rfl

theorem PresenceChange.avatarVersion_apply (change : PresenceChange) (p : Presence) :
    (change.apply p).avatarVersion = p.avatarVersion := by
  cases change <;> rfl

/-! ## Packets -/

/-- An account in a packet, as others see it. -/
structure UserPresence where
  uid : Int
  username : String := ""
  avatarVersion : String := ""
  status : PresenceStatus := .online
  statusText : String := ""
  statusEmoji : String := ""
deriving DecidableEq

def fillPresence (uid : Int) (p : Presence) : UserPresence where
  uid
  username := p.username
  avatarVersion := p.avatarVersion
  status := p.effective
  statusText := p.statusText
  statusEmoji := p.statusEmoji

def UserPresence.byteSizeLong (u : UserPresence) : Nat :=
  Lib.bytesSize 1 u.username.utf8ByteSize + Lib.bytesSize 2 u.avatarVersion.utf8ByteSize +
    Lib.intSize 3 (match u.status with | .online => 0 | .away => 1 | .dnd => 2 | .invisible => 3) +
    Lib.bytesSize 4 u.statusText.utf8ByteSize + Lib.bytesSize 5 u.statusEmoji.utf8ByteSize +
    Lib.intSize 6 u.uid

/-- The picture of an account that is not shown as online. -/
structure AvatarVersion where
  uid : Int
  version : String
deriving DecidableEq

def AvatarVersion.byteSizeLong (a : AvatarVersion) : Nat :=
  Lib.intSize 1 a.uid + Lib.bytesSize 2 a.version.utf8ByteSize

/-- The answer to a subscription. -/
structure PresenceUpdate where
  users : List UserPresence := []
  coveredUids : List Int := []
  avatars : List AvatarVersion := []
deriving DecidableEq

/-- What a client is told of its own account. -/
structure OwnPresence where
  status : PresenceStatus
  statusText : String
  statusEmoji : String
  /-- The time left, in seconds; 0 for no limit. -/
  statusClearIn : Int
  dmFriendsOnly : Bool
  idle : Bool
deriving DecidableEq

/-- A successful sign-in's answer, as far as it depends on the presence. -/
structure LoginRes where
  uid : Int
  username : String
  status : PresenceStatus
  statusText : String
  statusEmoji : String
  statusClearIn : Int
  dmFriendsOnly : Bool
deriving DecidableEq

/-- Why a connection is closed. -/
inductive CloseReason
  | replaced
  | signedOut
  | passwordChanged
deriving DecidableEq

inductive CallKind
  | invite
  | ringing
  | accept
  | reject
  | busy
  | cancel
  | hangup
  | peerOffline
  | notAllowed
  | streamStart
  | streamStop
  | answeredElsewhere
  | declinedElsewhere
deriving DecidableEq

/-- A call signal, without what the two ends say in it. -/
structure CallSignal where
  kind : CallKind
  callId : String
  fromName : String := ""
  toName : String := ""
  fromUid : Int
  toUid : Int
  timestamp : Int := 0
deriving DecidableEq

/-- A packet of the central server to a client. -/
inductive Packet
  | loginRes (r : LoginRes)
  | ownPresence (o : OwnPresence)
  | presenceDelta (online : Bool) (user : UserPresence)
  | presenceUpdate (u : PresenceUpdate)
  | userRenamed (uid : Int) (username : String)
  | avatarChanged (uid : Int) (username version : String)
  | sessionClosed (reason : CloseReason)
  | callSignal (sig : CallSignal)
deriving DecidableEq

/-- A given, visible presence; offline otherwise. -/
def presenceDelta (uid : Int) (username : String) : Option Presence → Packet
  | some p => if p.visible then .presenceDelta true (fillPresence uid p)
    else .presenceDelta false { uid, username }
  | none => .presenceDelta false { uid, username }

/-- The seconds until a message goes, at least one. -/
def statusClearIn (unixNow : Int) (p : Presence) : Int :=
  if 0 < p.statusExpiresAt then max 1 (p.statusExpiresAt - unixNow) else 0

def ownPresence (unixNow : Int) (p : Presence) : Packet :=
  .ownPresence
    { status := p.status
      statusText := p.statusText
      statusEmoji := p.statusEmoji
      statusClearIn := statusClearIn unixNow p
      dmFriendsOnly := p.dmFriendsOnly
      idle := p.idle }

/-- The answer to a sign-in under the name `username`. -/
def loginFrame (unixNow : Int) (uid : Int) (username : String) (p : Presence) : Packet :=
  .loginRes
    { uid
      username := if p.username = "" then username else p.username
      status := p.status
      statusText := p.statusText
      statusEmoji := p.statusEmoji
      statusClearIn := statusClearIn unixNow p
      dmFriendsOnly := p.dmFriendsOnly }

def callFrame (unixNow : Int) (kind : CallKind) (callId fromName : String) (fromUid : Int)
    (toName : String) (toUid : Int) : Packet :=
  .callSignal { kind, callId, fromName, toName, fromUid, toUid, timestamp := unixNow }

/-! ## Deliveries -/

/-- Packets gathered under the lock, with who gets them. -/
abbrev Fanout := List (List Nat × Packet)

/-- Nothing is sent to nobody. -/
def Fanout.add (out : Fanout) (recipients : List Nat) (frame : Packet) : Fanout :=
  if recipients = [] then out else out ++ [(recipients, frame)]

/-- The deliveries, in the order they are made. -/
def Fanout.run (out : Fanout) : List (Nat × Packet) :=
  out.flatMap fun send => send.1.map fun s => (s, send.2)

@[simp] theorem Fanout.run_nil : Fanout.run [] = [] := rfl

@[simp] theorem Fanout.run_add (out : Fanout) (recipients : List Nat) (frame : Packet) :
    (out.add recipients frame).run = out.run ++ recipients.map fun s => (s, frame) := by
  unfold Fanout.add
  split
  · rename_i h
    rw [h, List.map_nil, List.append_nil]
  · rw [Fanout.run, List.flatMap_append, List.flatMap_singleton]
    rfl

end Decibell.Central
