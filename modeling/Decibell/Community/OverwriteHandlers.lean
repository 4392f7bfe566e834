import Decibell.Community.DbChannels
import Decibell.Community.RoleHandlers

/-!
# The permission requests of a channel

What the server does with a request to set a permission overwrite of a channel, or to sync a channel
with its category. Who asks can only change permissions they have in the channel, and not lock
themselves out: the change is made, and undone if they can no longer view the channel.
-/

namespace Decibell

open Lib Lib.Conn

/-- Whom an overwrite is for. -/
inductive OverwriteTarget
  | role
  | member
  deriving DecidableEq, Repr

/-- A request to set an overwrite of the role `targetId` or the member `targetUid`. -/
structure OverwriteSetReq where
  channelId : String
  targetType : OverwriteTarget
  targetId : String := ""
  targetUid : Uid := 0
  allow : Permissions
  deny : Permissions

/-- The answer to the session that asked. -/
structure ChannelActionRes where
  action : String
  success : Bool
  message : Bytes := []
  channel : Option (DbChannel × Permissions) := none
  deriving DecidableEq, Repr

/-- What other sessions are sent. -/
inductive ChannelPush
  | channels
  | overwrites (channelId : String)
  deriving DecidableEq, Repr

/-- The row asked for: defined bits, none both allowed and denied. -/
def OverwriteSetReq.row (ow : OverwriteSetReq) (targetType : Int) (targetId : String) : DbOverwrite :=
  let deny := ow.deny &&& Perms.kKnownMask
  { channelId := ow.channelId, targetType, targetId, deny,
    allow := ow.allow &&& Perms.kKnownMask &&& ~~~deny }

/-- What rows allow and deny a target. -/
def currentBits (rows : List DbOverwrite) (targetType : Int) (targetId : String) :
    Permissions × Permissions :=
  rows.foldl (fun cur existing =>
    if existing.targetType = targetType ∧ existing.targetId = targetId then
      (existing.allow, existing.deny)
    else cur) (0, 0)

/-- The bits in which two pairs of allowed and denied bits differ. -/
def changedBits (before after : Permissions × Permissions) : Permissions :=
  (after.1 ^^^ before.1) ||| (after.2 ^^^ before.2)

/-- What two lists of rows allow and deny a target, bits cancelling. -/
def xorBits (rows : List DbOverwrite) (targetType : Int) (targetId : String) :
    Permissions × Permissions :=
  rows.foldl (fun r ow =>
    if ow.targetType = targetType ∧ ow.targetId = targetId then
      (r.1 ^^^ ow.allow, r.2 ^^^ ow.deny)
    else r) (0, 0)

/-- The bits that differ, for a target, between a channel's rows and its category's. -/
def differingBits (own category : List DbOverwrite) : Permissions :=
  (own ++ category).foldl (fun changed ow =>
    let r := xorBits (own ++ category) ow.targetType ow.targetId
    changed ||| (r.1 ||| r.2)) 0

namespace CommunityDb

def getChannel (channelId : String) : DbM (Option DbChannel) := do
  return (← get).tables.channels.find? channelId

def refuseChannel (action message : String) : ChannelActionRes × List ChannelPush :=
  ({ action, success := false, message := utf8 message }, [])

/-- The row and the member it names, or why there is none. -/
def overwriteTarget (ow : OverwriteSetReq) : DbM (Except String (DbOverwrite × Option DbMember)) :=
  match ow.targetType with
  | .member => do
    match ← resolveMember ow.targetUid with
    | none => return .error "Not a member."
    | some m => return .ok (ow.row 1 (toString m.uid), some m)
  | .role =>
    -- the row names the role in decimal, written anew from what was read
    match stollAll ow.targetId with
    | none => return .error "Unknown role."
    | some rid => return .ok (ow.row 0 (toString rid), none)

/-- A row is not edited if its role is not below the user. -/
def refuseRole (user : Uid) (row : DbOverwrite) : DbM (Option String) :=
  if row.targetType = 0 then
    match stoll row.targetId with
    | none => return some "Unknown role."
    | some rid => do
      match (← get).tables.findRole rid with
      | none => return some "Unknown role."
      | some role =>
        if role.isDefault then return none
        else if role.position ≥ (← memberLevel user) then
          return some "You can't edit overwrites for a role at or above your highest role."
        else return none
  else return none

/-- A channel is set to be synced and under a category. -/
def wasSynced (ch : DbChannel) : DbM Bool :=
  if ch.type ≠ .category ∧ ch.permSynced then return (← parentCategory ch.id) ≠ ""
  else return false

def canView (user : Uid) (channelId : String) : DbM Bool := do
  return (← channelPermissions user channelId) &&& Perms.kViewChannel ≠ 0

/-- What a change of a row is recorded as. -/
def overwriteDetails (row : DbOverwrite) : String :=
  if row.allow = 0 ∧ row.deny = 0 then "cleared"
  else "allow " ++ toString row.allow.toNat ++ " deny " ++ toString row.deny.toNat

/-- What is told the one who would be locked out. -/
def lockedOut : String := "That would remove your own access to this channel."

/-- The channels that follow a category. -/
def syncedChildren (categoryId : String) : DbM (List String) := do
  return (← getLayout).followers categoryId

/-- The end of a request that was granted. -/
def overwriteGranted (now : Int) (s : Session) (ch : DbChannel) (row : DbOverwrite)
    (member : Option DbMember) : DbM (ChannelActionRes × List ChannelPush) := do
  let ch := (← getChannel ch.id).getD ch
  let mine ← channelPermissions s.uid ch.id
  addAudit now s "overwrite_set" ((member.map DbMember.uid).getD 0)
    (utf8 ((member.map fun m => "member:" ++ m.username).getD ("role:" ++ row.targetId))) ch.id
    (utf8 (overwriteDetails row))
  -- a category's rows are also those of the channels that follow it
  let followers ← if ch.type = .category then syncedChildren ch.id else pure []
  return ({ action := "overwrite", success := true, channel := some (ch, mine) },
    .channels :: .overwrites ch.id :: followers.map .overwrites)

def overwriteSet (now : Int) (s : Session) (ow : OverwriteSetReq) :
    DbM (ChannelActionRes × List ChannelPush) := do
  match ← getChannel ow.channelId with
  | none => return refuseChannel "overwrite" "Channel not found."
  | some ch =>
    let auth ← check now .manageOverwrites { user := s.uid, channelId := ow.channelId }
    if ! auth.ok then return refuseChannel "overwrite" auth.reason
    else
      match ← overwriteTarget ow with
      | .error why => return refuseChannel "overwrite" why
      | .ok (row, member) =>
        -- the bits a row has and the actor lacks may stay as they are
        let actorPerms ← channelPermissions s.uid ow.channelId
        let cur := currentBits (← listOverwrites ow.channelId) row.targetType row.targetId
        if changedBits cur (row.allow, row.deny) &&& ~~~actorPerms ≠ 0 then
          return refuseChannel "overwrite"
            "You can't change permissions you don't have in this channel."
        else
          match ← refuseRole s.uid row with
          | some why => return refuseChannel "overwrite" why
          | none =>
            let synced ← wasSynced ch
            if ← setOverwrite row then
              if ← canView s.uid ow.channelId then overwriteGranted now s ch row member
              else
                if synced then
                  let _ ← syncChannelPermissions ow.channelId
                else
                  let _ ← setOverwrite { row with allow := cur.1, deny := cur.2 }
                return refuseChannel "overwrite" lockedOut
            else return refuseChannel "overwrite" "Failed to save overwrite."

/-- Syncs a channel with its category; why it was not done. -/
def syncChannelWithCategory (now : Int) (s : Session) (channelId expectedCategory : String) :
    DbM (Option String) := do
  match ← getChannel channelId with
  | none => return some "Channel not found."
  | some ch =>
    let auth ← check now .manageOverwrites { user := s.uid, channelId }
    if ! auth.ok then return some auth.reason
    else
      let category ← parentCategory channelId
      if ch.type = .category ∨ category = "" then return some "This channel isn't in a category."
      else if expectedCategory ≠ "" ∧ category ≠ expectedCategory then
        return some "The channel isn't in that category any more."
      else if ((← getChannel category).map DbChannel.categorySync).getD false then
        if ch.permSynced then return none
        else
          let own ← listOverwrites channelId
          let actorPerms ← channelPermissions s.uid channelId
          let changed := differingBits own (← listOverwrites category)
          if changed &&& ~~~actorPerms ≠ 0 then
            return some "Syncing would change permissions you don't have in this channel."
          else if ← syncChannelPermissions channelId then
            if ← canView s.uid channelId then
              addAudit now s "overwrite_sync" 0 [] channelId (utf8 ("synced with category " ++ category))
              return none
            else
              let _ ← restoreChannelOverwrites channelId own
              return some lockedOut
          else return some "Failed to sync permissions."
      else return some "This category doesn't sync permissions."

/-- The channels under a category, in display order. -/
def categoryChildren (categoryId : String) : DbM (List String) := do
  let ids := (← get).tables.ordered.map DbChannel.id
  let layout ← getLayout
  return ids.filter fun id => layout.parentOf.find? id = some categoryId

/-- How many channels of a category are to be synced, those that are, and what came of the first
    that is not. -/
structure SyncProgress where
  wanted : Nat := 0
  synced : List String := []
  firstError : Bytes := []

/-- Syncs the channels under a category not synced yet, in turn. -/
def syncChildren (now : Int) (s : Session) (categoryId : String) :
    List String → SyncProgress → DbM SyncProgress
  | [], p => return p
  | child :: children, p => do
    match ← getChannel child with
    | none => syncChildren now s categoryId children p
    | some c =>
      if c.permSynced then syncChildren now s categoryId children p
      else
        match ← syncChannelWithCategory now s child categoryId with
        | none =>
          syncChildren now s categoryId children
            { p with wanted := p.wanted + 1, synced := p.synced ++ [child] }
        | some err =>
          let firstError :=
            if p.firstError = [] then utf8 "#" ++ c.name ++ utf8 (": " ++ err) else p.firstError
          syncChildren now s categoryId children { p with wanted := p.wanted + 1, firstError }

def permissionsSync (now : Int) (s : Session) (channelId categoryId : String) :
    DbM (ChannelActionRes × List ChannelPush) := do
  match ← getChannel channelId with
  | none => return refuseChannel "sync" "Channel not found."
  | some ch =>
    let done (success : Bool) (message : Bytes) (synced : List String) :
        DbM (ChannelActionRes × List ChannelPush) := do
      let ch := (← getChannel channelId).getD ch
      let mine ← channelPermissions s.uid channelId
      return ({ action := "sync", success, message, channel := some (ch, mine) },
        if synced = [] then [] else .channels :: synced.map .overwrites)
    if ch.type = .category then
      if ch.categorySync then
        let p ← syncChildren now s channelId (← categoryChildren channelId) {}
        if p.synced.length < p.wanted then
          done false (utf8 ("Synced " ++ toString p.synced.length ++ " of " ++ toString p.wanted ++
            " channels. ") ++ p.firstError) p.synced
        else done true [] p.synced
      else return refuseChannel "sync" "This category doesn't sync permissions."
    else
      match ← syncChannelWithCategory now s channelId categoryId with
      | some err => return refuseChannel "sync" err
      | none => done true [] [channelId]

end CommunityDb
end Decibell
