import Decibell.Community.Perms
import Decibell.Community.Text
import Decibell.Lib.Table

/-!
# The tables of a community server

The rows of the server's SQLite database, each table with its primary key. Users are keyed by their
account uid; a user whose account is not known yet has a negative placeholder uid, recorded in
`legacyClaims`. Role and channel overwrite targets are named in decimal
(`channel_overwrites.target_id` is text).
-/

namespace Decibell

open Lib

/-- An account's id; a negative one is a placeholder. -/
abbrev Uid := Int

structure DbMember where
  uid : Uid
  username : String
  joinedAt : Int
  nickname : Bytes := []
  nameIat : Int := 0
  timedOutUntil : Int := 0
  serverMuted : Bool := false
  serverDeafened : Bool := false
  deriving DecidableEq, Repr

structure DbBan where
  uid : Uid
  username : Bytes
  bannedAt : Int
  bannedByUid : Uid := 0
  bannedBy : Bytes := []
  reason : Bytes := []
  expiresAt : Int := 0
  deriving DecidableEq, Repr

structure DbInvite where
  code : String
  createdByUid : Uid
  forUid : Uid := 0
  createdAt : Int
  expiresAt : Int := 0
  maxUses : Int := 0
  uses : Int := 0
  deriving DecidableEq, Repr

/-- A text or voice channel, or a category's header. -/
inductive ChannelType
  | text
  | voice
  | category
  deriving DecidableEq, Repr

structure DbChannel where
  id : String
  name : Bytes
  type : ChannelType
  position : Int
  voiceBitrateKbps : Int := 0
  permSynced : Bool := true
  /-- A category whose channels may follow it. -/
  categorySync : Bool := false
  encrypted : Bool := false
  deriving DecidableEq, Repr

/-- Position 0 is the default `everyone` role's; higher ranks higher. -/
structure DbRole where
  id : Int
  name : Bytes
  color : BitVec 32 := 0
  position : Int
  permissions : Permissions
  isDefault : Bool := false
  /-- Members whose highest role is this one may manage each other. -/
  manageEachOther : Bool := false
  deriving DecidableEq, Repr

structure DbMemberRole where
  uid : Uid
  roleId : Int
  deriving DecidableEq, Repr

/-- A channel's overwrite: `targetType` 0 is a role, 1 a member, `targetId` its decimal id. -/
structure DbOverwrite where
  channelId : String
  targetType : Int
  targetId : String
  allow : Permissions
  deny : Permissions
  deriving DecidableEq, Repr

structure DbMessage where
  id : Int
  channelId : String
  senderUid : Uid
  /-- The name it was sent under. -/
  sender : String := ""
  content : Bytes := []
  timestamp : Int := 0
  editedAt : Int := 0
  replyTo : Int := 0
  envelope : Option Bytes := none
  suppressEmbeds : Bool := false
  deriving DecidableEq, Repr

structure DbAttachment where
  id : Int
  channelId : String
  uploaderUid : Uid
  storagePath : Option String := none
  messageId : Int := 0
  kind : Nat := 0
  filename : Bytes := []
  mime : Bytes := []
  sizeBytes : Int := 0
  position : Int := 0
  createdAt : Int := 0
  purgedAt : Int := 0
  uploadStatus : String := "ready"
  width : Int := 0
  height : Int := 0
  thumbnailSizeBytes : Int := 0
  thumbnailSizesMask : Int := 0
  durationMs : Int := 0
  placeholder : String := ""
  encrypted : Bool := false
  deriving DecidableEq, Repr

structure DbAuditEntry where
  id : Int
  timestamp : Int := 0
  actorUid : Uid
  actor : Bytes := []
  action : String := ""
  targetUid : Uid := 0
  target : Bytes := []
  channelId : String := ""
  details : Bytes := []
  deriving DecidableEq, Repr

/-- An epoch of an encrypted channel's key. -/
structure DbKeyEpoch where
  channelId : String
  epoch : Int
  createdByUid : Uid
  createdBy : String := ""
  createdAt : Int := 0
  keyCheck : Bytes := []
  deriving DecidableEq, Repr

/-- A channel key sealed by one member to another. -/
structure DbKeyBlob where
  channelId : String
  epoch : Int
  recipientUid : Uid
  senderUid : Uid
  recipient : String := ""
  sender : String := ""
  blob : Bytes := []
  createdAt : Int := 0
  deriving DecidableEq, Repr

/-- A member refused the keys another escrowed to them. -/
structure DbKeyRefusal where
  channelId : String
  recipientUid : Uid
  senderUid : Uid
  createdAt : Int := 0
  deriving DecidableEq, Repr

/-- A key rotation that a removal left due. -/
structure DbKeyRotation where
  channelId : String
  dueSince : Int
  deriving DecidableEq, Repr

/-- A placeholder uid that the account of this name may claim. -/
structure DbLegacyClaim where
  username : String
  uid : Uid
  deriving DecidableEq, Repr

structure DbMeta where
  key : String
  value : String
  deriving DecidableEq, Repr

abbrev DbOverwrite.key (ow : DbOverwrite) : String × Int × String :=
  (ow.channelId, ow.targetType, ow.targetId)

/-- The contents of the database. -/
structure Tables where
  serverMeta : Table DbMeta.key := .empty
  members : Table DbMember.uid := .empty
  bans : Table DbBan.uid := .empty
  invites : Table DbInvite.code := .empty
  channels : Table DbChannel.id := .empty
  roles : Table DbRole.id := .empty
  memberRoles : Table (fun r : DbMemberRole => (r.uid, r.roleId)) := .empty
  overwrites : Table DbOverwrite.key := .empty
  messages : Table DbMessage.id := .empty
  attachments : Table DbAttachment.id := .empty
  auditLog : Table DbAuditEntry.id := .empty
  keyEpochs : Table (fun r : DbKeyEpoch => (r.channelId, r.epoch)) := .empty
  keyBlobs : Table (fun r : DbKeyBlob => (r.channelId, r.epoch, r.recipientUid)) := .empty
  keyRefusals : Table (fun r : DbKeyRefusal => (r.channelId, r.recipientUid, r.senderUid)) := .empty
  keyRotations : Table DbKeyRotation.channelId := .empty
  legacyClaims : Table DbLegacyClaim.username := .empty
  /-- The last role id given out (`AUTOINCREMENT`). -/
  roleSequence : Int := 0

namespace Tables

/-- The id the next role gets: above every id ever given out. -/
def nextRoleId (t : Tables) : Int := (t.roles.keys.foldl max t.roleSequence) + 1

/-- The value of a key of `server_meta`, empty when it has none. -/
def getMeta (t : Tables) (key : String) : String :=
  ((t.serverMeta.find? key).map DbMeta.value).getD ""

/-! ## Statements -/

/-- The contents a statement leaves; none if a constraint refuses it. -/
abbrev Stmt := Tables → Option Tables

def setMeta (key value : String) : Stmt := fun t =>
  some { t with serverMeta := t.serverMeta.upsert ⟨key, value⟩ }

def insertMember (m : DbMember) : Stmt := fun t =>
  (t.members.insert m).map fun members => { t with members }

def deleteMember (uid : Uid) : Stmt := fun t =>
  some { t with members := t.members.deleteWhere (·.uid = uid) }

def upsertBan (b : DbBan) : Stmt := fun t => some { t with bans := t.bans.upsert b }

/-- `UPDATE roles SET position = position + delta …`. -/
def shiftRoles (inRange : Int → Bool) (delta : Int) : Stmt := fun t =>
  let roles := t.roles.updateWhere (fun r => ! r.isDefault && inRange r.position)
    fun r => { r with position := r.position + delta }
  some { t with roles }

/-- Adds a role under the next free id. -/
def insertRole (r : DbRole) : Stmt := fun t =>
  (t.roles.insert { r with id := t.nextRoleId }).map fun roles =>
    { t with roles, roleSequence := t.nextRoleId }

def updateRole (roleId : Int) (f : DbRole → DbRole) (h : ∀ r, (f r).id = r.id := by intro _; rfl) :
    Stmt := fun t =>
  some { t with roles := t.roles.updateWhere (·.id = roleId) f h }

def deleteRole (roleId : Int) : Stmt := fun t =>
  some { t with roles := t.roles.deleteWhere (·.id = roleId) }

def insertMemberRole (uid : Uid) (roleId : Int) : Stmt := fun t =>
  some { t with memberRoles := t.memberRoles.insertOrIgnore ⟨uid, roleId⟩ }

def deleteMemberRoles (p : DbMemberRole → Bool) : Stmt := fun t =>
  some { t with memberRoles := t.memberRoles.deleteWhere p }

def insertOverwrite (ow : DbOverwrite) : Stmt := fun t =>
  (t.overwrites.insert ow).map fun overwrites => { t with overwrites }

def upsertOverwrite (ow : DbOverwrite) : Stmt := fun t =>
  some { t with overwrites := t.overwrites.upsert ow }

def deleteOverwrites (p : DbOverwrite → Bool) : Stmt := fun t =>
  some { t with overwrites := t.overwrites.deleteWhere p }

def insertChannel (c : DbChannel) : Stmt := fun t =>
  (t.channels.insert c).map fun channels => { t with channels }

def deleteChannel (id : String) : Stmt := fun t =>
  some { t with channels := t.channels.deleteWhere (·.id = id) }

/-- Adds an entry to the audit log under the next free id. -/
def insertAudit (e : DbAuditEntry) : Stmt := fun t =>
  (t.auditLog.insert { e with id := t.auditLog.keys.foldl max 0 + 1 }).map fun auditLog =>
    { t with auditLog }

def setPosition (id : String) (position : Int) : Stmt := fun t =>
  some { t with channels := t.channels.updateWhere (·.id = id) ({ · with position }) }

def setPermSynced (id : String) (permSynced : Bool) : Stmt := fun t =>
  some { t with channels := t.channels.updateWhere (·.id = id) ({ · with permSynced }) }

def setCategorySync (id : String) (categorySync : Bool) : Stmt := fun t =>
  let channels := t.channels.updateWhere (fun c => c.id = id && c.type = .category)
    ({ · with categorySync })
  some { t with channels }

end Tables
end Decibell
