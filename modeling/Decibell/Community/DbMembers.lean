import Decibell.Community.Db
import Decibell.Lib.Decimal

/-!
# Roles and members

The writers of roles, role assignments, members, bans and the owner. Each drops
what it makes stale in the caches before it opens its transaction.
-/

namespace Decibell

open Lib Lib.Conn Tables

namespace Tables

def findRole (t : Tables) (roleId : Int) : Option DbRole := t.roles.find? roleId

def isMember (t : Tables) (uid : Uid) : Bool := t.members.keys.contains uid

theorem isSome_member (t : Tables) (uid : Uid) :
    (t.members.find? uid).isSome = t.isMember uid := by
  rw [isMember, Bool.eq_iff_iff, List.contains_iff_mem, Table.mem_keys, Option.isSome_iff_exists]

/-- `COALESCE(MAX(position), 0)`. -/
def maxRolePosition (t : Tables) : Int :=
  match t.roles.rows.map DbRole.position with
  | [] => 0
  | p :: ps => ps.foldl max p

/-- The overwrite rows that name a user. -/
def memberOverwrite (uid : Uid) (ow : DbOverwrite) : Bool :=
  ow.targetType = 1 && ow.targetId = toString uid

end Tables

namespace CommunityDb

/-! ## Roles -/

def createRole (rawName : Bytes) (color : BitVec 32) (permissions : Permissions)
    (manageEachOther : Bool) : DbM (Option DbRole) := do
  let name := clampUtf8 rawName maxRoleNameBytes
  if name.isEmpty then return none
  else
    invalidatePermCache
    if ← sql begin then
      -- new roles land at position 1; whether the others could be moved up is not looked at
      let _ ← sql (exec (shiftRoles (fun _ => true) 1))
      let role : DbRole :=
        { id := (← get).tables.nextRoleId, name, color, position := 1, permissions, manageEachOther }
      if ← sql (exec (insertRole role)) then
        let _ ← sql commit
        return some role
      else
        sql rollback
        return none
    else return none

/-- A requested position among those of the other roles. -/
def clampPosition (maxPos position : Int) : Int := min (max position 1) maxPos

/-- The gap at the old slot closes, one opens at the new. -/
def moveRoles (old new : Int) : List Stmt :=
  if new = old then []
  else if new > old then [shiftRoles (fun p => old < p && p ≤ new) (-1)]
  else [shiftRoles (fun p => new ≤ p && p < old) 1]

def updateRole (roleId : Int) (rawName : Bytes) (color : BitVec 32) (permissions : Permissions)
    (position : Int) (manageEachOther : Bool) : DbM Bool := do
  let name := clampUtf8 rawName maxRoleNameBytes
  let t := (← get).tables
  match t.findRole roleId with
  | none => return false
  | some cur =>
    invalidatePermCache
    if cur.isDefault then
      -- only the permission bits and the peer flag of `everyone` are editable
      sql (exec (Tables.updateRole roleId ({ · with permissions, manageEachOther })))
    else if name.isEmpty then return false
    else
      let newPos := clampPosition t.maxRolePosition position
      sql (transact (moveRoles cur.position newPos ++
        [Tables.updateRole roleId
          ({ · with name, color, permissions, position := newPos, manageEachOther })]))

def deleteRole (roleId : Int) : DbM Bool := do
  match (← get).tables.findRole roleId with
  | none => return false
  | some cur =>
    if cur.isDefault then return false
    else
      invalidatePermCache
      clearOverwritesCache
      sql (transact [
        deleteOverwrites fun ow => ow.targetType = 0 && ow.targetId = toString roleId,
        deleteMemberRoles (·.roleId = roleId),
        Tables.deleteRole roleId,
        shiftRoles (fun p => cur.position < p) (-1)])

def setMemberRoles (uid : Uid) (roleIds : List Int) : DbM Bool := do
  let t := (← get).tables
  -- every id must name an existing, non-default role
  if roleIds.all fun id => ((t.findRole id).map (! ·.isDefault)).getD false then
    invalidateUserPerms uid
    sql (transact (deleteMemberRoles (·.uid = uid) :: roleIds.map (insertMemberRole uid)))
  else return false

/-! ## The owner -/

/-- Stores a value of `server_meta`; the owner is kept in memory, too. -/
def setMeta (key value : String) : DbM Unit := do
  let _ ← sql (exec (Tables.setMeta key value))
  if key = "owner_uid" then
    modify fun d => { d with ownerCache := (stoll value).getD 0 }
    invalidatePermCache

def transferOwnership (newOwnerUid : Uid) : DbM Bool := do
  if (← get).tables.isMember newOwnerUid then
    setMeta "owner_uid" (toString newOwnerUid)
    return true
  else return false

/-! ## Members -/

def addMember (uid : Uid) (username : String) (nameIat now : Int) : DbM Bool := do
  if uid ≤ 0 then return false
  else
    invalidateUserPerms uid
    sql (exec (insertMember { uid, username, joinedAt := now, nameIat }))

/-- Drops a user's cached permissions, every cached overwrite, and their passes. -/
def forgetUser (uid : Uid) : DbM Unit := do
  invalidateUserPerms uid
  clearOverwritesCache
  modify fun d => { d with voicePasses := d.voicePasses.erase uid }

def removeMember (uid : Uid) : DbM Bool := do
  forgetUser uid
  if ← sql begin then
    let _ ← sql (exec (deleteOverwrites (memberOverwrite uid)))
    let _ ← sql (exec (deleteMemberRoles (·.uid = uid)))
    let wasMember := (← get).tables.isMember uid
    if ← sql (exec (deleteMember uid)) then
      let _ ← sql commit
      return wasMember
    else
      sql rollback
      return false
  else return false

def addBan (uid : Uid) (username : Bytes) (bannedByUid : Uid) (bannedBy reason : Bytes)
    (expiresAt now : Int) : DbM Bool := do
  if uid = 0 then return false
  else
    forgetUser uid
    if ← sql begin then
      let _ ← sql (exec (deleteOverwrites (memberOverwrite uid)))
      let _ ← sql (exec (deleteMemberRoles (·.uid = uid)))
      let _ ← sql (exec (deleteMember uid))
      let ok ← sql (exec (upsertBan {
        uid
        username := clampUtf8 username maxUsernameBytes
        bannedAt := now
        bannedByUid
        bannedBy := clampUtf8 bannedBy maxUsernameBytes
        reason := clampUtf8 reason maxReasonBytes
        expiresAt := max expiresAt 0 }))
      sql (finish ok)
      return ok
    else return false

/-! ## Legacy claims -/

/-- The rewrites of each column that can hold the placeholder; where both have a row the real uid's
    stays. -/
def claimRewrites (uid placeholder : Uid) : List Stmt :=
  let was (x : Uid) : Bool := x = placeholder
  [ fun t => some { t with members := t.members.rekeyOrIgnore (was ·.uid) ({ · with uid }) },
    deleteMember placeholder,
    fun t => some { t with
      memberRoles := t.memberRoles.rekeyOrIgnore (was ·.uid) ({ · with uid }) },
    deleteMemberRoles (was ·.uid),
    fun t => some { t with
      overwrites := t.overwrites.rekeyOrIgnore (memberOverwrite placeholder)
        ({ · with targetId := toString uid }) },
    deleteOverwrites (memberOverwrite placeholder),
    fun t => some { t with bans := t.bans.rekeyOrIgnore (was ·.uid) ({ · with uid }) },
    fun t => some { t with bans := t.bans.deleteWhere (was ·.uid) },
    fun t => some { t with
      bans := t.bans.updateWhere (was ·.bannedByUid) ({ · with bannedByUid := uid }) },
    fun t => some { t with
      invites := t.invites.updateWhere (was ·.createdByUid) ({ · with createdByUid := uid }) },
    fun t => some { t with
      invites := t.invites.updateWhere (was ·.forUid) ({ · with forUid := uid }) },
    fun t => some { t with
      attachments := t.attachments.updateWhere (was ·.uploaderUid)
        ({ · with uploaderUid := uid }) },
    fun t => some { t with
      keyEpochs := t.keyEpochs.updateWhere (was ·.createdByUid) ({ · with createdByUid := uid }) },
    fun t => some { t with
      keyBlobs := t.keyBlobs.rekeyOrIgnore (was ·.recipientUid) ({ · with recipientUid := uid }) },
    fun t => some { t with keyBlobs := t.keyBlobs.deleteWhere (was ·.recipientUid) },
    fun t => some { t with
      keyBlobs := t.keyBlobs.updateWhere (was ·.senderUid) ({ · with senderUid := uid }) },
    fun t => some { t with
      keyRefusals := t.keyRefusals.rekeyOrIgnore (was ·.recipientUid)
        ({ · with recipientUid := uid }) },
    fun t => some { t with keyRefusals := t.keyRefusals.deleteWhere (was ·.recipientUid) },
    fun t => some { t with
      keyRefusals := t.keyRefusals.rekeyOrIgnore (was ·.senderUid) ({ · with senderUid := uid }) },
    fun t => some { t with keyRefusals := t.keyRefusals.deleteWhere (was ·.senderUid) },
    fun t => some { t with
      messages := t.messages.updateWhere (was ·.senderUid) ({ · with senderUid := uid }) },
    fun t => some { t with
      auditLog := t.auditLog.updateWhere (was ·.actorUid) ({ · with actorUid := uid }) },
    fun t => some { t with
      auditLog := t.auditLog.updateWhere (was ·.targetUid) ({ · with targetUid := uid }) },
    fun t => some { t with legacyClaims := t.legacyClaims.deleteWhere (was ·.uid) } ]

/-- The tables after the rewrites. -/
def claimed (uid placeholder : Uid) (t : Tables) : Tables :=
  let was (x : Uid) : Bool := x = placeholder
  { t with
    members :=
      (t.members.rekeyOrIgnore (was ·.uid) ({ · with uid })).deleteWhere (·.uid = placeholder)
    memberRoles :=
      (t.memberRoles.rekeyOrIgnore (was ·.uid) ({ · with uid })).deleteWhere (was ·.uid)
    overwrites := (t.overwrites.rekeyOrIgnore (memberOverwrite placeholder)
      ({ · with targetId := toString uid })).deleteWhere (memberOverwrite placeholder)
    bans := ((t.bans.rekeyOrIgnore (was ·.uid) ({ · with uid })).deleteWhere (was ·.uid)).updateWhere
      (was ·.bannedByUid) ({ · with bannedByUid := uid })
    invites := (t.invites.updateWhere (was ·.createdByUid) ({ · with createdByUid := uid })).updateWhere
      (was ·.forUid) ({ · with forUid := uid })
    attachments := t.attachments.updateWhere (was ·.uploaderUid) ({ · with uploaderUid := uid })
    keyEpochs := t.keyEpochs.updateWhere (was ·.createdByUid) ({ · with createdByUid := uid })
    keyBlobs := ((t.keyBlobs.rekeyOrIgnore (was ·.recipientUid)
      ({ · with recipientUid := uid })).deleteWhere (was ·.recipientUid)).updateWhere
        (was ·.senderUid) ({ · with senderUid := uid })
    keyRefusals := (((t.keyRefusals.rekeyOrIgnore (was ·.recipientUid)
      ({ · with recipientUid := uid })).deleteWhere (was ·.recipientUid)).rekeyOrIgnore
        (was ·.senderUid) ({ · with senderUid := uid })).deleteWhere (was ·.senderUid)
    messages := t.messages.updateWhere (was ·.senderUid) ({ · with senderUid := uid })
    auditLog := (t.auditLog.updateWhere (was ·.actorUid) ({ · with actorUid := uid })).updateWhere
      (was ·.targetUid) ({ · with targetUid := uid })
    legacyClaims := t.legacyClaims.deleteWhere (was ·.uid) }

/-- `uid` takes over what its name's placeholder left; the claimed placeholder. -/
def claimLegacy (uid : Uid) (username : String) (now : Int) : DbM (Option Uid) := do
  let t := (← get).tables
  let claimsUntil := (stoll (t.getMeta "legacy_claims_until")).getD 0
  if uid ≤ 0 ∨ username = "" then return none
  else if claimsUntil > 0 ∧ now ≥ claimsUntil then
    -- past the deadline a name may belong to someone else
    let _ ← sql (exec fun t => some { t with legacyClaims := .empty })
    return none
  else
    match t.legacyClaims.find? username with
    | none => return none
    | some ⟨_, placeholder⟩ =>
      if placeholder ≥ 0 ∨ t.isMember uid then return none
      else
        invalidatePermCache
        clearOverwritesCache
        if ← sql begin then
          let ok ← sql (execAll (claimRewrites uid placeholder))
          if ok ∧ (← get).ownerCache = placeholder then
            setMeta "owner_uid" (toString uid)
          sql (finish ok)
          if ok then return some placeholder
          else
            modify fun d => { d with
              ownerCache := (stoll (d.tables.getMeta "owner_uid")).getD d.ownerCache }
            invalidatePermCache
            return none
        else return none

end CommunityDb
end Decibell
