import Decibell.Community.Authz

/-!
# The role requests of a session

What the server does with a request to create, change or delete a role, or to give a
member another set of roles. Each handler looks at the level and the permissions of
the member who asks: a role at or above their highest one is out of reach, and no
permission they do not have can be given or taken.
-/

namespace Decibell

open Lib Lib.Conn

/-- A session whose user is known. -/
structure Session where
  uid : Uid
  username : Bytes

/-- A request about roles. -/
inductive RoleRequest
  | create (name : Bytes) (color : BitVec 32) (permissions : Permissions) (manageEachOther : Bool)
  | update (roleId : Int) (name : Bytes) (color : BitVec 32) (permissions : Permissions)
      (position : Int) (manageEachOther : Bool)
  | delete (roleId : Int)
  | assign (uid : Uid) (roleIds : List Int)

/-- The answer to the session that asked. -/
structure RoleActionRes where
  action : String
  success : Bool
  message : String := ""
  role : Option DbRole := none
  deriving DecidableEq, Repr

/-- What other sessions are sent. -/
inductive Push
  | roles
  | channels
  | memberUpsert (uid : Uid)
  | channelsTo (uid : Uid)
  deriving DecidableEq, Repr

/-- At most this many roles, `everyone` included. -/
def maxRoles : Nat := 250

namespace Tables

/-- The ids of a member's roles, the highest first. -/
def memberRoleIds (t : Tables) (uid : Uid) : List Int :=
  ((t.rolesOf uid).insertionSort fun a b => b.position ≤ a.position).map DbRole.id

/-- Why a member of this level and permissions may not give a role. -/
def refuseAdded (t : Tables) (level : Int) (perms : Permissions) (id : Int) : Option String :=
  match t.findRole id with
  | none => some "Unknown role in request."
  | some role =>
    if role.isDefault then some "Unknown role in request."
    else if role.position ≥ level then
      some "You can't assign a role at or above your highest role."
    else if role.permissions &&& ~~~perms ≠ 0 then
      some "You can't assign a role that grants permissions you don't have."
    else none

/-- Why a role may not be taken away by a member of this level. -/
def refuseRemoved (t : Tables) (level : Int) (id : Int) : Option String :=
  match t.findRole id with
  | none => some "Unknown role in request."
  | some role =>
    if role.isDefault then some "Unknown role in request."
    else if role.position ≥ level then
      some "You can't remove a role at or above your highest role."
    else none

end Tables

/-- The ids of a list, each once, in order. -/
def idSet (ids : List Int) : List Int := ids.dedup.insertionSort (· ≤ ·)

namespace CommunityDb

def addAudit (now : Int) (s : Session) (action : String) (targetUid : Uid) (target : Bytes)
    (channelId : String) (details : Bytes) : DbM Unit := do
  let _ ← sql (exec (Tables.insertAudit {
    id := 0
    timestamp := now
    actorUid := s.uid
    actor := s.username
    action, targetUid, channelId
    target := clampUtf8 target maxAuditTargetBytes
    details := clampUtf8 details maxAuditDetailsBytes }))

/-- The member a request names. -/
def resolveMember (uid : Uid) : DbM (Option DbMember) :=
  if uid = 0 then pure none else getMember uid

/-! ## The handlers -/

/-- A request that is turned down. -/
def refuse (action message : String) : RoleActionRes × List Push :=
  ({ action, success := false, message }, [])

def roleCreate (now : Int) (s : Session) (name : Bytes) (color : BitVec 32)
    (permissions : Permissions) (manageEachOther : Bool) : DbM (RoleActionRes × List Push) := do
  let auth ← check now .manageRoles { user := s.uid }
  if ! auth.ok then return refuse "create" auth.reason
  else
    let requested := permissions &&& Perms.kKnownMask
    let actorPerms ← effectivePermissions s.uid
    if requested &&& ~~~actorPerms ≠ 0 then
      return refuse "create" "You can't grant permissions you don't have."
    else
      let name := clampUtf8 name maxRoleNameBytes
      let roles := (← get).tables.roles.rows.length
      if name.isEmpty then return refuse "create" "Role name can't be empty."
      else if roles ≥ maxRoles then
        return refuse "create" ("A server can have at most " ++ toString maxRoles ++ " roles.")
      else
        match ← createRole name (color &&& 0xFFFFFF) requested manageEachOther with
        | none => return refuse "create" "Failed to create role."
        | some created =>
          addAudit now s "role_create" 0 created.name "" []
          return ({ action := "create", success := true, role := some created }, [.roles])

/-- What a change of a role is recorded as. -/
def updateDetails (role : DbRole) (permissions : Permissions) (manageEachOther : Bool) : String :=
  let perms := if permissions ≠ role.permissions then ["permissions changed"] else []
  let peers :=
    if manageEachOther ≠ role.manageEachOther then
      [if manageEachOther then "members can manage each other"
        else "members can't manage each other"]
    else []
  "; ".intercalate (perms ++ peers)

def roleUpdate (now : Int) (s : Session) (roleId : Int) (name : Bytes) (color : BitVec 32)
    (permissions : Permissions) (position : Int) (manageEachOther : Bool) :
    DbM (RoleActionRes × List Push) := do
  let auth ← check now .manageRoles { user := s.uid }
  if ! auth.ok then return refuse "update" auth.reason
  else
    match (← get).tables.findRole roleId with
    | none => return refuse "update" "Role not found."
    | some role =>
      let level ← memberLevel s.uid
      if ! role.isDefault ∧ role.position ≥ level then
        return refuse "update" "You can't manage a role at or above your highest role."
      else if ! role.isDefault ∧ position ≥ level then
        return refuse "update" "You can't move a role to or above your highest role."
      else
        -- the bits the role has and the actor lacks may stay as they are
        let requested := permissions &&& Perms.kKnownMask
        let actorPerms ← effectivePermissions s.uid
        if (requested ^^^ role.permissions) &&& ~~~actorPerms ≠ 0 then
          return refuse "update" "You can't change permissions you don't have."
        else
          let name := clampUtf8 name maxRoleNameBytes
          if ← updateRole roleId name (color &&& 0xFFFFFF) requested position manageEachOther then
            let updated := (← get).tables.findRole roleId
            addAudit now s "role_update" 0 (if role.isDefault then utf8 "everyone" else name) ""
              (utf8 (updateDetails role requested manageEachOther))
            return ({ action := "update", success := true, role := updated }, [.roles, .channels])
          else return refuse "update" "Failed to update role."

def roleDelete (now : Int) (s : Session) (roleId : Int) : DbM (RoleActionRes × List Push) := do
  let auth ← check now .manageRoles { user := s.uid }
  if ! auth.ok then return refuse "delete" auth.reason
  else
    match (← get).tables.findRole roleId with
    | none => return refuse "delete" "Role not found."
    | some role =>
      if role.isDefault then return refuse "delete" "The default role can't be deleted."
      else
        let level ← memberLevel s.uid
        if role.position ≥ level then
          return refuse "delete" "You can't delete a role at or above your highest role."
        else if ← deleteRole roleId then
          addAudit now s "role_delete" 0 role.name "" []
          return ({ action := "delete", success := true }, [.roles, .channels])
        else return refuse "delete" "Failed to delete role."

/-- A change of a member's roles on record: the names given and taken. -/
def assignDetails (t : Tables) (added removed : List Int) : Bytes :=
  let names (sign : String) (ids : List Int) : Bytes :=
    ids.flatMap fun id => ((t.findRole id).map fun r => utf8 sign ++ r.name ++ utf8 " ").getD []
  names "+" added ++ names "-" removed

def memberRolesUpdate (now : Int) (s : Session) (uid : Uid) (roleIds : List Int) :
    DbM (RoleActionRes × List Push) := do
  let auth ← check now .manageRoles { user := s.uid }
  if ! auth.ok then return refuse "assign" auth.reason
  else
    match ← resolveMember uid with
    | none => return refuse "assign" "Not a member."
    | some target =>
      let level ← memberLevel s.uid
      -- only the difference between the two sets is looked at
      let current := idSet ((← get).tables.memberRoleIds target.uid)
      let requested := idSet roleIds
      let added := requested.filter (· ∉ current)
      let removed := current.filter (· ∉ requested)
      let actorPerms ← effectivePermissions s.uid
      let t := (← get).tables
      match (added.findSome? (t.refuseAdded level actorPerms)).or
          (removed.findSome? (t.refuseRemoved level)) with
      | some why => return refuse "assign" why
      | none =>
        if ← setMemberRoles target.uid requested then
          let details := assignDetails (← get).tables added removed
          addAudit now s "member_roles" target.uid target.username.toUTF8.toList "" details
          return ({ action := "assign", success := true },
            [.memberUpsert target.uid, .roles, .channelsTo target.uid])
        else return refuse "assign" "Failed to update member roles."

def handleRole (now : Int) (s : Session) : RoleRequest → DbM (RoleActionRes × List Push)
  | .create name color permissions manageEachOther =>
    roleCreate now s name color permissions manageEachOther
  | .update roleId name color permissions position manageEachOther =>
    roleUpdate now s roleId name color permissions position manageEachOther
  | .delete roleId => roleDelete now s roleId
  | .assign uid roleIds => memberRolesUpdate now s uid roleIds

end CommunityDb
end Decibell
