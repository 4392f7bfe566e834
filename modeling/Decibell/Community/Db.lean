import Mathlib.Data.List.Sort
import Decibell.Community.Tables
import Decibell.Lib.Memo
import Decibell.Lib.Txn

/-!
# The database object and its cached queries

`CommunityDb` is a connection to the tables together with what the object keeps in memory: the
owner's uid, the voice passes, and caches of the permissions of each user, in all and by channel, of
the overwrite rows of each channel, and of the channel layout.
-/

namespace Decibell

open Lib

/-- A user's server-wide permissions, highest role's position, and its peer flag. -/
structure PermEntry where
  permissions : Permissions := 0
  level : Int := 0
  managePeers : Bool := false
  deriving DecidableEq, Repr

/-- What display order says of channels: the category of each (empty: none), whether synced, and
    which categories sync. -/
structure ChannelLayout where
  parentOf : Memo String String := {}
  syncedOf : Memo String Bool := {}
  categorySyncOf : Memo String Bool := {}

/-- What the database object keeps in memory. -/
structure Memory where
  /-- `server_meta.owner_uid`. -/
  ownerCache : Uid := 0
  /-- The voice channels each user was moved into without a right to enter. -/
  voicePasses : Memo Uid (List String) := {}
  permCache : Memo Uid PermEntry := {}
  channelPermCache : Memo Uid (Memo String Permissions) := {}
  overwritesCache : Memo String (List DbOverwrite) := {}
  layoutValid : Bool := false
  layout : ChannelLayout := {}

/-- The database object. -/
structure CommunityDb extends Memory where
  conn : Conn Tables

/-- A program over the database object. -/
abbrev DbM := StateM CommunityDb

namespace CommunityDb

/-- The tables as the connection sees them. -/
abbrev tables (d : CommunityDb) : Tables := d.conn.tables

/-- Runs statements on the connection. -/
def sql {α : Type} (m : StateM (Conn Tables) α) : DbM α := fun d =>
  ((m.run d.conn).1, { d with conn := (m.run d.conn).2 })

/-- The position of the owner above every role. -/
def ownerLevel : Int := 2147483647

/-- How much the caches of users, channels and overwrites hold. -/
def cacheBound : Nat := 4096
def perUserBound : Nat := 1024

end CommunityDb

/-! ## What the queries compute from the tables -/

/-- Display order: by position, equal positions by id. -/
def DbChannel.le (a b : DbChannel) : Prop :=
  a.position < b.position ∨ a.position = b.position ∧ a.id ≤ b.id

instance : DecidableRel DbChannel.le := fun a b =>
  inferInstanceAs (Decidable (a.position < b.position ∨ a.position = b.position ∧ a.id ≤ b.id))

namespace ChannelLayout

/-- The layout of rows in display order, under a category. -/
def ofRows : List DbChannel → String → ChannelLayout → ChannelLayout
  | [], _, l => l
  | c :: cs, current, l =>
    if c.type = .category then
      ofRows cs c.id {
        parentOf := l.parentOf.set c.id ""
        syncedOf := l.syncedOf.set c.id false
        categorySyncOf := l.categorySyncOf.set c.id c.categorySync }
    else
      ofRows cs current {
        l with
        parentOf := l.parentOf.set c.id current
        syncedOf := l.syncedOf.set c.id c.permSynced }

/-- The category a channel is under; empty for none. -/
def parentCategory (l : ChannelLayout) (channelId : String) : String :=
  (l.parentOf.find? channelId).getD ""

/-- The channel whose overwrite rows apply to `channelId`. -/
def source (l : ChannelLayout) (channelId : String) : String :=
  match l.parentOf.find? channelId with
  | none => channelId
  | some parent =>
    if parent = "" then channelId
    else if l.syncedOf.find? channelId ≠ some true then channelId
    -- a category that does not sync is never a source
    else if l.categorySyncOf.find? parent = some true then parent else channelId

/-- The channels that follow some category, each with it. -/
def followed (l : ChannelLayout) : List (String × String) :=
  l.parentOf.entries.filter fun (id, parent) => parent ≠ "" ∧ l.source id = parent

/-- The channels not under the category they are paired with. -/
def movedFrom (l : ChannelLayout) (channels : List (String × String)) : List (String × String) :=
  channels.filter fun (id, parent) => l.parentCategory id ≠ parent

def followers (l : ChannelLayout) (categoryId : String) : List String :=
  (l.parentOf.entries.filter fun (id, parent) =>
    parent = categoryId ∧ l.source id = categoryId).map (·.1)

end ChannelLayout

namespace Tables

def ordered (t : Tables) : List DbChannel := t.channels.rows.insertionSort DbChannel.le

def layout (t : Tables) : ChannelLayout := .ofRows t.ordered "" {}

def overwritesOf (t : Tables) (channelId : String) : List DbOverwrite :=
  t.overwrites.rows.filter (·.channelId = channelId)

/-- The roles a member has been given. -/
def rolesOf (t : Tables) (uid : Uid) : List DbRole :=
  t.roles.rows.filter fun r => ⟨uid, r.id⟩ ∈ t.memberRoles.rows

/-- The default roles at level 0, then the member's at their positions. -/
def permRows (t : Tables) (uid : Uid) : List (Permissions × Int × Bool) :=
  (t.roles.rows.filter (·.isDefault)).map (fun r => (r.permissions, 0, r.manageEachOther)) ++
    (t.rolesOf uid).map fun r => (r.permissions, r.position, r.manageEachOther)

/-- Bits, highest position and its peer flag, with one more row. -/
def joinPermRow (acc row : Permissions × Int × Bool) : Permissions × Int × Bool :=
  if row.2.1 > acc.2.1 then (acc.1 ||| row.1, row.2.1, row.2.2)
  else (acc.1 ||| row.1, acc.2.1, acc.2.2)

/-- The rows' bits together, the highest position and its peer flag. -/
def foldPermRows (rows : List (Permissions × Int × Bool)) : Permissions × Int × Bool :=
  rows.foldl joinPermRow (0, -1, false)

/-- A user's server-wide entry, `owner` being the owner's uid. -/
def permEntry (t : Tables) (owner uid : Uid) : PermEntry :=
  if uid ≠ 0 ∧ owner = uid then
    { permissions := Perms.kAll, level := CommunityDb.ownerLevel }
  else
    let (p, level, peers) := foldPermRows (t.permRows uid)
    { permissions := Perms.expand p, level := max level 0, managePeers := peers }

/-- The `everyone` role's id in decimal; empty for none. -/
def everyoneId (t : Tables) : String :=
  ((t.roles.rows.find? (·.isDefault)).map fun r => toString r.id).getD ""

/-- The ids of a member's role assignments in decimal. -/
def roleIdsOf (t : Tables) (uid : Uid) : List String :=
  (t.memberRoles.rows.filter (·.uid = uid)).map fun r => toString r.roleId

end Tables

/-- What a set of overwrite rows allows and denies. -/
structure Overwrites where
  allow : Permissions := 0
  deny : Permissions := 0

/-- Takes away what is denied, then gives what is allowed. -/
def Overwrites.apply (o : Overwrites) (p : Permissions) : Permissions := (p &&& ~~~o.deny) ||| o.allow

/-- The rows among `rows` that meet `p`, joined. -/
def joinOverwrites (rows : List DbOverwrite) (p : DbOverwrite → Bool) : Overwrites :=
  (rows.filter p).foldl (fun o ow => ⟨o.allow ||| ow.allow, o.deny ||| ow.deny⟩) {}

/-- A user's permissions in a channel, from `base`: the rows of `everyone`, of the other roles and
    of the user apply in turn, a voice pass lets see and enter, and who may not see has none. -/
def resolveChannel (base : Permissions) (everyoneId : String) (myRoles : List String) (me : String)
    (rows : List DbOverwrite) (pass : Bool) : Permissions :=
  let everyone := joinOverwrites rows fun ow => ow.targetType = 0 && ow.targetId = everyoneId
  let roles := joinOverwrites rows fun ow =>
    ow.targetType = 0 && ow.targetId ≠ everyoneId && myRoles.contains ow.targetId
  let member := joinOverwrites rows fun ow => ow.targetType ≠ 0 && ow.targetId = me
  let p := member.apply (roles.apply (everyone.apply base))
  let p := if pass then p ||| (Perms.kViewChannel ||| Perms.kConnectVoice) else p
  if p &&& Perms.kViewChannel = 0 then 0 else p

/-! ## The queries -/

namespace CommunityDb

/-- Drops what is cached about every user. -/
def invalidatePermCache : DbM Unit :=
  modify fun d => { d with permCache := .empty, channelPermCache := .empty }

/-- Drops what is cached about one user. -/
def invalidateUserPerms (uid : Uid) : DbM Unit := modify fun d =>
  { d with permCache := d.permCache.erase uid, channelPermCache := d.channelPermCache.erase uid }

/-- Drops the layout and what was resolved through it. -/
def invalidateChannelLayout : DbM Unit :=
  modify fun d => { d with layoutValid := false, channelPermCache := .empty }

def clearOverwritesCache : DbM Unit := modify fun d => { d with overwritesCache := .empty }

def eraseOverwritesCache (channelId : String) : DbM Unit :=
  modify fun d => { d with overwritesCache := d.overwritesCache.erase channelId }

def rebuildChannelLayout : DbM Unit :=
  modify fun d => { d with layout := d.tables.layout, layoutValid := true }

/-- The layout, read from the tables unless it is cached. -/
def getLayout : DbM ChannelLayout := do
  if ! (← get).layoutValid then rebuildChannelLayout
  return (← get).layout

def parentCategory (channelId : String) : DbM String := do
  return (← getLayout).parentCategory channelId

def overwriteSource (channelId : String) : DbM String := do
  return (← getLayout).source channelId

/-- A channel's own overwrite rows. -/
def overwrites (channelId : String) : DbM (List DbOverwrite) := do
  let d ← get
  match d.overwritesCache.find? channelId with
  | some rows => return rows
  | none =>
    let rows := d.tables.overwritesOf channelId
    set { d with overwritesCache := (d.overwritesCache.bound cacheBound).emplace channelId rows }
    return rows

/-- A channel's own overwrite rows, where they are asked for. -/
def overwritesIf (wanted : Bool) (channelId : String) : DbM (List DbOverwrite) :=
  if wanted then overwrites channelId else pure []

/-- The overwrite rows that apply to a channel. -/
def listOverwrites (channelId : String) : DbM (List DbOverwrite) := do
  overwrites (← overwriteSource channelId)

def permEntry (uid : Uid) : DbM PermEntry := do
  let d ← get
  match d.permCache.find? uid with
  | some e => return e
  | none =>
    let e := d.tables.permEntry d.ownerCache uid
    set { d with permCache := (d.permCache.bound cacheBound).emplace uid e }
    return e

def effectivePermissions (uid : Uid) : DbM Permissions := do return (← permEntry uid).permissions

def hasPermission (uid : Uid) (perm : Permissions) : DbM Bool := do
  return (← effectivePermissions uid) &&& perm = perm

def memberLevel (uid : Uid) : DbM Int := do return (← permEntry uid).level

/-- Resolves a user's permissions in a channel that exists. -/
def resolveChannelPermissions (uid : Uid) (channelId : String) : DbM Permissions := do
  let base ← permEntry uid
  if base.permissions = Perms.kAll then return Perms.kAll
  else
    let rows ← overwrites (← overwriteSource channelId)
    let d ← get
    return resolveChannel base.permissions d.tables.everyoneId (d.tables.roleIdsOf uid)
      (toString uid) rows (((d.voicePasses.find? uid).getD []).contains channelId)

def channelPermissions (uid : Uid) (channelId : String) : DbM Permissions := do
  let layout ← getLayout
  -- a channel that does not exist resolves to nothing and is never cached
  if layout.parentOf.find? channelId = none then return 0
  else
    let perUser := ((← get).channelPermCache.find? uid).getD .empty
    match perUser.find? channelId with
    | some p => return p
    | none =>
      let p ← resolveChannelPermissions uid channelId
      modify fun d =>
        let perUser := ((d.channelPermCache.find? uid).getD .empty).bound perUserBound
        { d with channelPermCache := d.channelPermCache.set uid (perUser.emplace channelId p) }
      return p

end CommunityDb
end Decibell
