import Decibell.Community.DbMembers

/-!
# What a user may do

`check` answers whether a user may do an action, in a channel or to a member, and
says why not. A timed-out member is denied everything that is not passive. The
hierarchy between members is that of their levels: an action on another member wants
a strictly higher level, the light ones also accept a peer.
-/

namespace Decibell

open Lib Lib.Conn

inductive Action
  | manageServer
  | manageRoles
  | manageInvites
  | createInvite
  | viewBans
  | kickMember
  | banMember
  | unbanMember
  | manageNicknameOf
  | createChannel
  | reorderChannels
  | viewAuditLog
  | timeoutMember
  | transferOwnership
  | muteMember
  | deafenMember
  | moveMember
  | viewChannel
  | sendMessage
  | attachFiles
  | readHistory
  | connectVoice
  | stream
  | manageChannel
  | wipeChannel
  | deleteOthersMessage
  | manageOverwrites
  | viewOverwrites
  deriving DecidableEq, Repr

/-- Who acts, where, and on whom. -/
structure AuthCtx where
  user : Uid
  channelId : String := ""
  target : Uid := 0

structure AuthResult where
  ok : Bool
  /-- What the user is told. -/
  reason : String := ""
  deriving DecidableEq, Repr

namespace AuthResult

def allow : AuthResult := ⟨true, ""⟩

def deny (why : String) : AuthResult := ⟨false, why⟩

def orDeny (ok : Bool) (why : String) : AuthResult := if ok then allow else deny why

end AuthResult

/-! ## Times -/

/-- The year, month and day that begin `days` after 1970-01-01. -/
def civilFromDays (days : Int) : Int × Int × Int :=
  -- years are counted from the first of March, so that a leap day ends one
  let z := days + 719468
  let era := z / 146097
  let doe := z - era * 146097
  let yoe := (doe - doe / 1460 + doe / 36524 - doe / 146096) / 365
  let doy := doe - (365 * yoe + yoe / 4 - yoe / 100)
  let mp := (5 * doy + 2) / 153
  let month := if mp < 10 then mp + 3 else mp - 9
  (yoe + era * 400 + (if month ≤ 2 then 1 else 0), month, doy - (153 * mp + 2) / 5 + 1)

/-- A number of at least two digits. -/
def twoDigits (n : Int) : String := if n < 10 then "0" ++ toString n else toString n

/-- `%Y-%m-%d %H:%M UTC` of a Unix time. -/
def formatTime (ts : Int) : String :=
  let (year, month, day) := civilFromDays (ts / 86400)
  let s := ts % 86400
  toString year ++ "-" ++ twoDigits month ++ "-" ++ twoDigits day ++ " " ++ twoDigits (s / 3600) ++
    ":" ++ twoDigits (s % 3600 / 60) ++ " UTC"

example : formatTime 1709210096 = "2024-02-29 12:34 UTC" := by decide

namespace CommunityDb

/-! ## Hierarchy -/

def getMember (uid : Uid) : DbM (Option DbMember) := do return (← get).tables.members.find? uid

/-- Members of one highest role that lets them manage each other. -/
def arePeers (a b : Uid) : DbM Bool := do
  if a = 0 ∨ b = 0 ∨ a = b then return false
  else
    let owner := (← get).ownerCache
    if a = owner ∨ b = owner then return false
    else
      let ea ← permEntry a
      let eb ← permEntry b
      return ea.level = eb.level ∧ ea.managePeers

def canModerate (actor target : Uid) : DbM Bool := do
  return (← memberLevel actor) > (← memberLevel target)

def canManage (actor target : Uid) : DbM Bool := do
  if ← canModerate actor target then return true
  else arePeers actor target

/-- When a user's timeout ends; 0 when they are not timed out. -/
def timeoutUntil (now : Int) (user : Uid) : DbM Int := do
  match ← getMember user with
  | none => return 0
  | some m => return if m.timedOutUntil ≠ 0 ∧ now < m.timedOutUntil then m.timedOutUntil else 0

/-! ## The check -/

/-- What a timed-out member may still do. -/
def isPassiveAction : Action → Bool
  | .viewChannel | .readHistory | .viewBans | .viewAuditLog | .viewOverwrites => true
  | _ => false

/-- A server-wide permission. -/
def checkBase (ctx : AuthCtx) (perm : Permissions) (why : String) : DbM AuthResult := do
  return .orDeny (← hasPermission ctx.user perm) why

def checkChannel (ctx : AuthCtx) (perm : Permissions) (why : String) : DbM AuthResult := do
  return .orDeny ((← channelPermissions ctx.user ctx.channelId) &&& perm = perm) why

/-- A further check, made when the first one passes. -/
def andThen (first : DbM AuthResult) (next : DbM AuthResult) : DbM AuthResult := do
  let r ← first
  if r.ok then next else return r

/-- The target is not the owner or the actor, and lower. -/
def checkTarget (ctx : AuthCtx) (ofOwner ofSelf ofHigher : String) : DbM AuthResult := do
  if ctx.target = (← get).ownerCache then return .deny ofOwner
  else if ctx.target = ctx.user then return .deny ofSelf
  else return .orDeny (← canModerate ctx.user ctx.target) ofHigher

/-- The bit in the target's voice channel, server-wide if in none. -/
def checkVoiceMod (ctx : AuthCtx) (perm : Permissions) (why : String) : DbM AuthResult :=
  andThen (if ctx.channelId = "" then checkBase ctx perm why else checkChannel ctx perm why) do
    if ctx.target = (← get).ownerCache then return .deny "The server owner can't be voice-moderated."
    else
      let ok ← canManage ctx.user ctx.target
      return .orDeny ok "You can't voice-moderate a member with an equal or higher role."

/-- The rule of an action for someone who is not timed out. -/
def checkAction (ctx : AuthCtx) : Action → DbM AuthResult
  | .manageServer =>
    checkBase ctx Perms.kManageServer "You don't have permission to manage this server."
  | .manageRoles => checkBase ctx Perms.kManageRoles "You don't have permission to manage roles."
  | .manageInvites =>
    checkBase ctx Perms.kManageInvites "You don't have permission to manage invites."
  | .createInvite => do
    if ← hasPermission ctx.user Perms.kCreateInvite then return .allow
    else
      let ok ← hasPermission ctx.user Perms.kManageInvites
      return .orDeny ok "You don't have permission to create invites."
  | .viewBans => checkBase ctx Perms.kBanMembers "You don't have permission to view bans."
  | .unbanMember => checkBase ctx Perms.kBanMembers "You don't have permission to unban members."
  | .createChannel | .reorderChannels =>
    checkBase ctx Perms.kManageChannels "You don't have permission to manage channels."
  | .viewAuditLog =>
    checkBase ctx Perms.kViewAuditLog "You don't have permission to view the audit log."
  | .timeoutMember =>
    andThen (checkBase ctx Perms.kModerateMembers "You don't have permission to time out members.")
      (checkTarget ctx "The server owner can't be timed out." "You can't time yourself out."
        "You can't time out a member with an equal or higher role.")
  | .muteMember =>
    checkVoiceMod ctx Perms.kMuteMembers "You don't have permission to server-mute members."
  | .deafenMember =>
    checkVoiceMod ctx Perms.kDeafenMembers "You don't have permission to server-deafen members."
  | .moveMember => checkVoiceMod ctx Perms.kMoveMembers "You don't have permission to move members."
  | .transferOwnership => do
    return .orDeny (ctx.user = (← get).ownerCache) "Only the server owner can transfer ownership."
  | .kickMember =>
    andThen (checkBase ctx Perms.kKickMembers "You don't have permission to kick members.")
      (checkTarget ctx "Cannot kick the server owner." "Use leave to remove yourself."
        "You can't kick a member with an equal or higher role.")
  | .banMember =>
    andThen (checkBase ctx Perms.kBanMembers "You don't have permission to ban members.")
      (checkTarget ctx "Cannot ban the server owner." "Cannot ban yourself."
        "You can't ban a member with an equal or higher role.")
  | .manageNicknameOf =>
    if ctx.target = ctx.user then
      checkBase ctx Perms.kChangeNickname "You don't have permission to change your nickname."
    else
      andThen (checkBase ctx Perms.kManageNicknames "You don't have permission to manage nicknames.")
        do
          let ok ← canManage ctx.user ctx.target
          return .orDeny ok "You can't change the nickname of a member with an equal or higher role."
  | .viewChannel => checkChannel ctx Perms.kViewChannel "You can't see this channel."
  | .sendMessage =>
    checkChannel ctx Perms.kSendMessages "You don't have permission to send messages here."
  | .attachFiles =>
    checkChannel ctx Perms.kAttachFiles "You don't have permission to attach files here."
  | .readHistory =>
    checkChannel ctx Perms.kReadHistory "You don't have permission to read this channel's history."
  | .connectVoice =>
    checkChannel ctx Perms.kConnectVoice "You don't have permission to join this voice channel."
  | .stream => checkChannel ctx Perms.kStream "You don't have permission to stream here."
  | .manageChannel =>
    checkChannel ctx Perms.kManageChannels "You don't have permission to edit this channel."
  | .wipeChannel =>
    checkChannel ctx Perms.kManageChannels "You don't have permission to wipe channel history."
  | .deleteOthersMessage =>
    checkChannel ctx Perms.kManageMessages "You don't have permission to delete this message."
  | .manageOverwrites =>
    checkChannel ctx Perms.kManageRoles
      "You don't have permission to edit this channel's permissions."
  | .viewOverwrites => do
    let p ← channelPermissions ctx.user ctx.channelId
    return .orDeny (p &&& Perms.kManageRoles ≠ 0 || p &&& Perms.kManageChannels ≠ 0)
      "You don't have permission to view this channel's permissions."

def check (now : Int) (action : Action) (ctx : AuthCtx) : DbM AuthResult := do
  if isPassiveAction action then checkAction ctx action
  else
    let until' ← timeoutUntil now ctx.user
    if until' = 0 then checkAction ctx action
    else return .deny ("You are timed out until " ++ formatTime until' ++ ".")

end CommunityDb
end Decibell
