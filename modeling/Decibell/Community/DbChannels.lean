import Decibell.Community.DbMembers

/-!
# Channels and their overwrites

The writers of channels, display order, category sync and overwrite rows. A synced
channel has no rows of its own and follows its category's; whatever would make it
follow something else copies the category's rows onto it first.
-/

namespace Decibell

open Lib Lib.Conn Tables

namespace Tables

/-- Writes rows as a channel's own, in place of its others, and sets whether it is synced. -/
def writeOwnOverwrites (channelId : String) (rows : List DbOverwrite) (synced : Bool) : List Stmt :=
  deleteOverwrites (·.channelId = channelId) ::
    rows.map (fun ow => insertOverwrite { ow with channelId }) ++ [setPermSynced channelId synced]

/-- The first free id of `id`, `base-suffix`, `base-(suffix + 1)`, … in `tries` tests. -/
def freeChannelId (t : Tables) (base : String) : Nat → Nat → String → String
  | 0, _, id => id
  | tries + 1, suffix, id =>
    if t.channels.keys.contains id then
      t.freeChannelId base tries (suffix + 1) (base ++ "-" ++ toString suffix)
    else id

/-- Where a new channel goes in display order: a category last, a channel without one before the
    first, one of a category before the next; none for an unknown category. -/
def insertionIndex (rows : List DbChannel) (type : ChannelType) (categoryId : String) : Option Nat :=
  if type = .category then some rows.length
  else if categoryId = "" then some (rows.findIdx (·.type = .category))
  else
    let header := rows.findIdx fun c => c.id = categoryId && c.type = .category
    if header < rows.length then
      some (header + 1 + (rows.drop (header + 1)).findIdx (·.type = .category))
    else none

/-- Gives the channels the positions `position 0`, `position 1`, … -/
def renumber (ids : List String) (position : Nat → Int) : List Stmt :=
  ids.mapIdx fun i id => setPosition id (position i)

/-- Text channels, then voice channels, in each group between headers; `texts` and `voices` are read
    of the group. -/
def normalizeRows : List DbChannel → List DbChannel → List DbChannel → List DbChannel
  | [], texts, voices => texts ++ voices
  | c :: cs, texts, voices =>
    match c.type with
    | .text => normalizeRows cs (texts ++ [c]) voices
    | .voice => normalizeRows cs texts (voices ++ [c])
    | .category => texts ++ voices ++ c :: normalizeRows cs [] []

end Tables

namespace CommunityDb

/-- Puts channels into the normal order of their groups. -/
def normalizeChannelOrder : DbM Unit := do
  let ids := (normalizeRows (← get).tables.ordered [] []).map DbChannel.id
  if ← sql begin then
    let ok ← sql (execAll (renumber ids fun i => i))
    sql (finish ok)
    invalidateChannelLayout

def createChannel (rawName : Bytes) (type : ChannelType) (voiceBitrateKbps : Int)
    (categoryId : String) (encrypted : Bool) : DbM (Option DbChannel) := do
  let name := clampUtf8 rawName maxChannelNameBytes
  let t := (← get).tables
  let base := slugifyChannelName name
  let id := t.freeChannelId base 998 2 base
  if name.isEmpty then return none
  else
    match insertionIndex t.ordered type categoryId with
    | none => return none
    | some idx =>
      if ← sql begin then
        let ok ← sql (execAll (renumber (t.ordered.map DbChannel.id) fun i => if i < idx then i else i + 1))
        -- a new channel inside a syncing category follows it from the start; the layout
        -- is read inside the transaction, also when a position could not be written
        let syncs := (← getLayout).categorySyncOf.find? categoryId
        let channel : DbChannel := {
          id, name, type
          position := idx
          voiceBitrateKbps := if type = .voice then voiceBitrateKbps else 0
          permSynced := type ≠ .category && syncs = some true
          encrypted := type = .text && encrypted }
        let ok ← sql (execIf ok (insertChannel channel))
        sql (finish ok)
        if ok then
          normalizeChannelOrder
          invalidateChannelLayout
          return some channel
        else return none
      else return none

/-- A synced channel that follows nothing is unsynced; it has no rows, so allows the same. -/
def enforceSyncInvariant : DbM Unit := do
  let layout ← getLayout
  let stray := (layout.syncedOf.entries.filter fun (id, synced) =>
    synced && layout.source id = id).map (·.1)
  if stray ≠ [] then
    if ← sql begin then
      let ok ← sql (execAll (stray.map (setPermSynced · false)))
      sql (finish ok)
      invalidateChannelLayout

/-- Gives each channel a category's rows as its own, up to the first failure. -/
def keepOverwrites (rows : String → DbM (List DbOverwrite)) (channels : List (String × String)) :
    DbM Bool :=
  channels.allM fun (id, categoryId) => do
    let ok ← sql (execAll (writeOwnOverwrites id (← rows categoryId) false))
    eraseOverwritesCache id
    return ok

/-- A move never changes what a channel allows: one that leaves a category it followed keeps its
    rows. -/
def reorderChannels (orderedIds : List String) : DbM Bool := do
  let current := (← get).tables.channels.keys
  -- the request must name every channel exactly once
  if orderedIds.Nodup ∧ orderedIds ⊆ current ∧ current ⊆ orderedIds then
    let layout ← getLayout
    let followed := layout.followed
    if ← sql begin then
      let ok ← sql (execAll (renumber orderedIds fun i => i))
      sql (finish ok)
      invalidateChannelLayout
      if ok then
        normalizeChannelOrder
        rebuildChannelLayout
        let layout ← getLayout
        let moved := layout.movedFrom followed
        if moved ≠ [] then
          if ← sql begin then
            let kept ← keepOverwrites overwrites moved
            sql (finish kept)
            invalidateChannelLayout
        enforceSyncInvariant
        return true
      else return false
    else return false
  else return false

/-! ## Category sync -/

/-- The channel follows its category from here on; its own rows go. -/
def syncChannelPermissions (channelId : String) : DbM Bool := do
  let layout ← getLayout
  let parent := layout.parentCategory channelId
  if parent = "" ∨ layout.categorySyncOf.find? parent ≠ some true then return false
  else if ← sql begin then
    let ok ← sql (execAll (writeOwnOverwrites channelId [] true))
    sql (finish ok)
    eraseOverwritesCache channelId
    invalidateChannelLayout
    return ok
  else return false

/-- Turns a category's sync on or off; then its followers keep its rows. -/
def setCategorySync (categoryId : String) (on : Bool) : DbM Bool := do
  let layout ← getLayout
  match layout.categorySyncOf.find? categoryId with
  | none => return false
  | some was =>
    if was = on then return true
    else
      let followers := if on then [] else layout.followers categoryId
      let rows ← overwritesIf (followers ≠ []) categoryId
      if ← sql begin then
        let ok ← keepOverwrites (fun _ => pure rows) (followers.map (·, categoryId))
        let ok ← sql (execIf ok (Tables.setCategorySync categoryId on))
        sql (finish ok)
        invalidateChannelLayout
        return ok
      else return false

/-- Undoes a sync: the channel gets these rows as its own. -/
def restoreChannelOverwrites (channelId : String) (rows : List DbOverwrite) : DbM Bool := do
  if ← sql begin then
    let ok ← sql (execAll (writeOwnOverwrites channelId rows false))
    sql (finish ok)
    eraseOverwritesCache channelId
    invalidateChannelLayout
    return ok
  else return false

/-- Whether an overwrite's target exists: a role, or a member. -/
def targetExists (t : Tables) (ow : DbOverwrite) : Bool :=
  match stoll ow.targetId with
  | none => false
  | some n =>
    if ow.targetType = 0 then (t.findRole n).isSome
    else if ow.targetType = 1 then t.isMember n
    else false

/-- As stored: defined bits, none both allowed and denied. -/
def maskOverwrite (ow : DbOverwrite) : DbOverwrite :=
  let deny := ow.deny &&& Perms.kKnownMask
  { ow with deny, allow := ow.allow &&& Perms.kKnownMask &&& ~~~deny }

/-- Sets one row of a channel, which gets its category's rows first if synced, and is unsynced. -/
def setOverwrite (ow : DbOverwrite) : DbM Bool := do
  let t := (← get).tables
  match t.channels.find? ow.channelId with
  | none => return false
  | some channel =>
    if ! targetExists t ow then return false
    else
      let ow := maskOverwrite ow
      let source ← overwriteSource ow.channelId
      let inherited ← overwritesIf (source ≠ ow.channelId) source
      eraseOverwritesCache ow.channelId
      invalidateChannelLayout
      let copy := if inherited = [] then [] else writeOwnOverwrites ow.channelId inherited false
      let unsync := if channel.type = .category then [] else [setPermSynced ow.channelId false]
      let write :=
        if ow.allow = 0 ∧ ow.deny = 0 then deleteOverwrites (·.key = ow.key) else upsertOverwrite ow
      let ok ← sql (transact (copy ++ unsync ++ [write]))
      eraseOverwritesCache ow.channelId
      invalidateChannelLayout
      return ok

/-! ## Voice passes -/

def grantVoicePass (uid : Uid) (channelId : String) : DbM Unit := modify fun d =>
  { d with
    voicePasses := d.voicePasses.set uid (((d.voicePasses.find? uid).getD []).insert channelId)
    channelPermCache := d.channelPermCache.erase uid }

def revokeVoicePass (uid : Uid) (channelId : String) : DbM Bool := do
  let passes := ((← get).voicePasses.find? uid).getD []
  if channelId ∈ passes then
    let left := passes.erase channelId
    modify fun d => { d with
      voicePasses := if left = [] then d.voicePasses.erase uid else d.voicePasses.set uid left
      channelPermCache := d.channelPermCache.erase uid }
    return true
  else return false

/-! ## Deleting a channel -/

/-- What a deletion took with it. -/
structure WipeChannelResult where
  unlinkPaths : List String
  deletedAttachmentCount : Nat := 0
  deletedMessageCount : Nat := 0
  deriving DecidableEq, Repr

/-- Deletes a channel's escrowed keys, whatever the answers. -/
def deleteChannelKeys (channelId : String) : StateM (Conn Tables) Unit := do
  let _ ← exec fun t => some { t with
    keyBlobs := t.keyBlobs.deleteWhere (·.channelId = channelId) }
  let _ ← exec fun t => some { t with
    keyEpochs := t.keyEpochs.deleteWhere (·.channelId = channelId) }
  let _ ← exec fun t => some { t with
    keyRefusals := t.keyRefusals.deleteWhere (·.channelId = channelId) }
  let _ ← exec fun t => some { t with
    keyRotations := t.keyRotations.deleteWhere (·.channelId = channelId) }

/-- The deletions that decide whether a channel is deleted. -/
def wipeChannel (channelId : String) : List Stmt := [
  fun t => some { t with attachments := t.attachments.deleteWhere (·.channelId = channelId) },
  fun t => some { t with messages := t.messages.deleteWhere (·.channelId = channelId) },
  deleteOverwrites (·.channelId = channelId),
  Tables.deleteChannel channelId]

/-- Deletes a channel with all of its rows, a category's followers getting its rows first. -/
def deleteChannel (channelId : String) : DbM (Option WipeChannelResult) := do
  let t := (← get).tables
  if ! t.channels.keys.contains channelId then return none
  else
    let layout ← getLayout
    let orphans := layout.followers channelId
    let categoryRows ← overwritesIf (orphans ≠ []) channelId
    let attachments := t.attachments.rows.filter (·.channelId = channelId)
    let messages := t.messages.rows.filter (·.channelId = channelId)
    if ← sql begin then
      let _ ← keepOverwrites (fun _ => pure categoryRows) (orphans.map (·, channelId))
      sql (deleteChannelKeys channelId)
      -- from here on success is that of the deletions, whatever came of the copies
      let ok ← sql (execAll (wipeChannel channelId))
      sql (finish ok)
      eraseOverwritesCache channelId
      invalidateChannelLayout
      if ok then
        normalizeChannelOrder
        return some {
          unlinkPaths := (attachments.filterMap (·.storagePath)).filter (· ≠ "")
          deletedAttachmentCount := attachments.length
          deletedMessageCount := messages.length }
      else return none
    else return none

end CommunityDb
end Decibell
