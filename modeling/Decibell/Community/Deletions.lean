import Decibell.Community.Tables
import Decibell.Lib.Txn

/-!
# What is deleted for good

Attachments are rows and files. A function that deletes rows returns the paths of their files, for
its caller to unlink, and the ids of what was deleted, for it to tell the clients. What it returns
should be of rows whose deletion was committed: else rows stay whose files are gone.
-/

namespace Decibell

open Lib Lib.Conn Tables List

/-! ## The statements -/

namespace Tables

variable (t : Tables)

def ofMessages (p : DbMessage → Bool) (a : DbAttachment) : Bool :=
  t.messages.rows.any fun m => p m && m.id = a.messageId

/-- `SELECT id, channel_id FROM messages WHERE …`. -/
def messagesWhere (p : DbMessage → Bool) : List DbMessage := t.messages.rows.filter p

/-- `SELECT storage_path FROM attachments WHERE …`, where there is a path. -/
def pathsWhere (p : DbAttachment → Bool) : List String :=
  (t.attachments.rows.filter p).filterMap DbAttachment.storagePath

def deleteMessages (p : DbMessage → Bool) : Stmt := fun t =>
  some { t with messages := t.messages.deleteWhere p }

def deleteAttachments (p : DbAttachment → Bool) : Stmt := fun t =>
  some { t with attachments := t.attachments.deleteWhere p }

def deleteAttachmentsOf (p : DbMessage → Bool) : Stmt := fun t =>
  t.deleteAttachments (t.ofMessages p)

/-- The row stays, without its file. -/
def tombstoneAttachments (p : DbAttachment → Bool) (now : Int) : Stmt := fun t =>
  let attachments := t.attachments.updateWhere p ({ · with storagePath := none, purgedAt := now })
  some { t with attachments }

end Tables

/-! ## The functions -/

/-- Deletes the messages `p` picks with their attachments, and returns what was found, whatever was
    answered. -/
def purgeMessages (p : DbMessage → Bool) (hasFile : DbAttachment → Bool) (ids paths : Reading) :
    StateM (Conn Tables) (List DbMessage × List String) := do
  let doomed := (← select ids (·.messagesWhere p)).getD []
  if doomed = [] then return ([], [])
  else
    let unlinkPaths := (← select paths fun t =>
      t.pathsWhere fun a => t.ofMessages p a && hasFile a).getD []
    if ← begin then
      let _ ← exec (deleteAttachmentsOf p)
      let _ ← exec (deleteMessages p)
      let _ ← commit
      return (doomed, unlinkPaths)
    else return ([], [])

structure PrunedTextResult where
  deletedIds : List Int := []
  unlinkPaths : List String := []

/-- What `pruneTextMessages` deletes. -/
def isExpired (channelId : String) (cutoff : Int) (m : DbMessage) : Bool :=
  m.channelId = channelId && m.timestamp < cutoff

/-- Deletes a channel's messages from before the cutoff. -/
def pruneTextMessages (channelId : String) (cutoff : Int) (ids paths : Reading) :
    StateM (Conn Tables) PrunedTextResult := do
  let (doomed, unlinkPaths) ← purgeMessages (isExpired channelId cutoff) (fun _ => true) ids paths
  return { deletedIds := doomed.map (·.id), unlinkPaths }

structure PurgedMessages where
  messages : List (String × Int) := []
  unlinkPaths : List String := []

/-- What `deleteMessagesBySenderSince` deletes. -/
def isSentSince (senderUid : Uid) (since : Int) (m : DbMessage) : Bool :=
  m.senderUid = senderUid && m.timestamp ≥ since

/-- Deletes what an account sent since some time. -/
def deleteMessagesBySenderSince (senderUid : Uid) (since : Int) (ids paths : Reading) :
    StateM (Conn Tables) PurgedMessages := do
  if senderUid = 0 then return {}
  else
    let (doomed, unlinkPaths) ← purgeMessages (isSentSince senderUid since)
      (fun a => a.storagePath ≠ some "") ids paths
    return { messages := doomed.map fun m => (m.channelId, m.id), unlinkPaths }

structure DeleteMessageResult where
  ok : Bool := false
  unlinkPaths : List String := []

/-- The transaction is undone, and nothing is deleted. -/
def undoDelete : StateM (Conn Tables) DeleteMessageResult := do
  rollback
  return {}

/-- The message that `deleteMessage` deletes. -/
def isMessage (channelId : String) (messageId : Int) (m : DbMessage) : Bool :=
  m.id = messageId && m.channelId = channelId

/-- The rows go, committed if there was such a message. -/
def deleteMessageRows (channelId : String) (messageId : Int) (unlinkPaths : List String) :
    StateM (Conn Tables) DeleteMessageResult := do
  if ← exec (deleteAttachments (·.messageId = messageId)) then
    let changes := ((← get).tables.messagesWhere (isMessage channelId messageId)).length
    let done ← exec (deleteMessages (isMessage channelId messageId))
    if done && changes = 1 then
      if ← commit then return { ok := true, unlinkPaths }
      else undoDelete
    else undoDelete
  else undoDelete

def deleteMessage (channelId : String) (messageId : Int) (paths : Reading) :
    StateM (Conn Tables) DeleteMessageResult := do
  if ← begin then
    match ← select paths (·.pathsWhere fun a => a.messageId = messageId && a.storagePath ≠ some "") with
    | none => undoDelete
    | some unlinkPaths => deleteMessageRows channelId messageId unlinkPaths
  else return {}

structure PurgedAttachmentInfo where
  attachmentId : Int
  messageId : Int
  storagePath : String
  purgedAt : Int

/-- What `pruneAttachments` makes tombstones of. -/
def isStale (channelId : String) (kind : Nat) (cutoff : Int) (t : Tables) (a : DbAttachment) : Bool :=
  t.ofMessages (·.channelId = channelId) a && a.kind = kind && a.createdAt < cutoff && a.purgedAt = 0

/-- Deletes the files of a channel's old attachments of a kind. -/
def pruneAttachments (channelId : String) (kind : Nat) (cutoff now : Int) (rows : Reading) :
    StateM (Conn Tables) (List PurgedAttachmentInfo) := do
  let found := (← select rows fun t =>
    t.attachments.rows.filter (isStale channelId kind cutoff t)).getD []
  if found = [] then return []
  else if ← exec (fun t => t.tombstoneAttachments (isStale channelId kind cutoff t) now) then
    return found.map fun a => ⟨a.id, a.messageId, a.storagePath.getD "", now⟩
  else return []

structure WipeChannelResult where
  deletedMessageCount : Nat := 0
  deletedAttachmentCount : Nat := 0
  unlinkPaths : List String := []

def undoWipe : StateM (Conn Tables) WipeChannelResult := do
  rollback
  return {}

/-- Deletes all messages and attachments of a channel. -/
def wipeChannel (channelId : String) (paths : Reading) :
    StateM (Conn Tables) WipeChannelResult := do
  match ← select paths (·.pathsWhere fun a => a.channelId = channelId && a.storagePath ≠ some "") with
  | none => return {}
  | some unlinkPaths =>
    if ← begin then
      let deletedAttachmentCount :=
        ((← get).tables.attachments.rows.filter (·.channelId = channelId)).length
      if ← exec (deleteAttachments (·.channelId = channelId)) then
        let deletedMessageCount := ((← get).tables.messagesWhere (·.channelId = channelId)).length
        if ← exec (deleteMessages (·.channelId = channelId)) then
          if ← commit then return { deletedMessageCount, deletedAttachmentCount, unlinkPaths }
          else undoWipe
        else undoWipe
      else undoWipe
    else return { unlinkPaths }

/-! ## What is committed -/

/-- Every id is of a message that there was, and that is gone. -/
def MessagesCommitted (before after : Tables) (ids : List Int) : Prop :=
  ∀ id ∈ ids, (∃ m ∈ before.messages.rows, m.id = id) ∧ ∀ m ∈ after.messages.rows, m.id ≠ id

/-- Each path is of an attachment that there was; those of it to be deleted are gone. -/
def PathsCommitted (before after : Tables) (doomed : DbAttachment → Bool) (paths : List String) :
    Prop :=
  ∀ path ∈ paths, (∃ a ∈ before.attachments.rows, doomed a ∧ a.storagePath = some path) ∧
    ∀ a ∈ before.attachments.rows, doomed a → a.storagePath = some path →
      ∀ a' ∈ after.attachments.rows, a'.id ≠ a.id

/-- Each is an attachment that there was, with a tombstone. -/
def TombstonesCommitted (before after : Tables) (purged : List PurgedAttachmentInfo) : Prop :=
  ∀ p ∈ purged, ∃ a ∈ before.attachments.rows,
    a.id = p.attachmentId ∧ a.messageId = p.messageId ∧ a.storagePath.getD "" = p.storagePath ∧
      { a with storagePath := none, purgedAt := p.purgedAt } ∈ after.attachments.rows

variable {before after : Tables} {ids paths : Reading} {p : DbMessage → Bool}
  {doomed deleted : DbAttachment → Bool} {committed : Prop} [Decidable committed]

theorem MessagesCommitted.nil : MessagesCommitted before after [] := nofun

theorem PathsCommitted.nil : PathsCommitted before after doomed [] := nofun

theorem messagesCommitted_of_deleteWhere {rows : List DbMessage}
    (hrows : ∀ m ∈ rows, m ∈ before.messages.rows ∧ p m)
    (hafter : after.messages = before.messages.deleteWhere p) :
    MessagesCommitted before after (rows.map (·.id)) := by
  intro id hid
  obtain ⟨m, hm, rfl⟩ := mem_map.1 hid
  obtain ⟨hmem, hp⟩ := hrows m hm
  refine ⟨⟨m, hmem, rfl⟩, fun m' hm' hid => ?_⟩
  rw [hafter, Table.rows_deleteWhere, mem_filter] at hm'
  rw [Table.eq_of_key hm'.1 hmem hid, hp] at hm'
  exact absurd hm'.2 Bool.false_ne_true

theorem messagesCommitted_iff {rows : List DbMessage} (hne : rows ≠ [])
    (hrows : ∀ m ∈ rows, m ∈ before.messages.rows ∧ p m)
    (hafter : after.messages =
      if committed then before.messages.deleteWhere p else before.messages) :
    MessagesCommitted before after (rows.map (·.id)) ↔ committed := by
  by_cases hc : committed
  · rw [if_pos hc] at hafter
    exact iff_of_true (messagesCommitted_of_deleteWhere hrows hafter) hc
  · rw [if_neg hc] at hafter
    refine iff_of_false (fun h => ?_) hc
    obtain ⟨m, rest, rfl⟩ := exists_cons_of_ne_nil hne
    obtain ⟨_, hgone⟩ := h m.id (mem_map_of_mem mem_cons_self)
    rw [hafter] at hgone
    exact hgone m (hrows m mem_cons_self).1 rfl

theorem pathsCommitted_of_deleteWhere {found : List String}
    (hfound : ∀ path ∈ found, path ∈ before.pathsWhere doomed)
    (hdeleted : ∀ a, doomed a → deleted a)
    (hafter : after.attachments = before.attachments.deleteWhere deleted) :
    PathsCommitted before after doomed found := by
  intro path hpath
  obtain ⟨a, ha, hpath⟩ := mem_filterMap.1 (hfound path hpath)
  refine ⟨⟨a, (mem_filter.1 ha).1, (mem_filter.1 ha).2, hpath⟩, ?_⟩
  intro a ha hdoomed _ a' ha' hid
  rw [hafter, Table.rows_deleteWhere, mem_filter] at ha'
  rw [Table.eq_of_key ha'.1 ha hid, hdeleted a hdoomed] at ha'
  exact absurd ha'.2 Bool.false_ne_true

theorem pathsCommitted_of_unchanged {found : List String}
    (hafter : after.attachments = before.attachments) :
    PathsCommitted before after doomed found ↔ found = [] := by
  refine ⟨fun h => ?_, fun h => h ▸ .nil⟩
  by_contra hne
  obtain ⟨path, rest, rfl⟩ := exists_cons_of_ne_nil hne
  obtain ⟨⟨a, ha, hdoomed, hpath⟩, hgone⟩ := h path mem_cons_self
  rw [hafter] at hgone
  exact hgone a ha hdoomed hpath a ha rfl

/-- Paths are committed if there are none, or their attachments are deleted. -/
theorem pathsCommitted_iff {found : List String}
    (hfound : ∀ path ∈ found, path ∈ before.pathsWhere doomed)
    (hdeleted : ∀ a, doomed a → deleted a)
    (hafter : after.attachments =
      if committed then before.attachments.deleteWhere deleted else before.attachments) :
    PathsCommitted before after doomed found ↔ found = [] ∨ committed := by
  by_cases hc : committed
  · rw [if_pos hc] at hafter
    exact iff_of_true (pathsCommitted_of_deleteWhere hfound hdeleted hafter) (.inr hc)
  · rw [if_neg hc] at hafter
    rw [or_iff_left hc]
    exact pathsCommitted_of_unchanged hafter

/-! ## The purges -/

theorem purge_base (db : Tables) (p : DbMessage → Bool) (attachments messages commits : Outcome) :
    let c := ((do
      let _ ← exec (deleteAttachmentsOf p)
      let _ ← exec (deleteMessages p)
      commit : StateM (Conn Tables) Bool).run
        ⟨db, some db, [attachments, messages, commits]⟩).2
    c.base.messages = (if messages = .ok ∧ (attachments = .abort ∨ commits = .ok) then
        db.messages.deleteWhere p else db.messages) ∧
      c.base.attachments = (if attachments = .ok ∧ messages ≠ .abort ∧ commits = .ok then
        db.attachments.deleteWhere (db.ofMessages p) else db.attachments) := by
  cases attachments <;> cases messages <;> cases commits <;> exact ⟨rfl, rfl⟩

/-- What a purge finds to delete. -/
def foundMessages (db : Tables) (p : DbMessage → Bool) (ids : Reading) : List DbMessage :=
  (ids.fetch (db.messagesWhere p)).getD []

/-- The paths that a query for them gives. -/
def foundPaths (db : Tables) (doomed : DbAttachment → Bool) (paths : Reading) : List String :=
  (paths.fetch (db.pathsWhere doomed)).getD []

/-- What a purge returns is committed: nothing is found, or the transaction does not open, or the
    messages' delete runs and is committed (by the commit, or after an undo), and the attachments'
    does if there are paths. -/
def PurgeCommits (rows : List DbMessage) (found : List String)
    (opened attachments messages commits : Outcome) : Prop :=
  rows = [] ∨ opened ≠ .ok ∨
    (messages = .ok ∧ (attachments = .abort ∨ commits = .ok)) ∧
      (found = [] ∨ attachments = .ok ∧ messages ≠ .abort ∧ commits = .ok)

theorem purge_committed (db : Tables) (p : DbMessage → Bool) (hasFile : DbAttachment → Bool)
    (ids paths : Reading) (opened attachments messages commits : Outcome) :
    let doomed a := db.ofMessages p a && hasFile a
    let r := (purgeMessages p hasFile ids paths).run
      ⟨db, none, [opened, attachments, messages, commits]⟩
    (MessagesCommitted db r.2.base (r.1.1.map (·.id)) ∧
        PathsCommitted db r.2.base doomed r.1.2) ↔
      PurgeCommits (foundMessages db p ids) (foundPaths db doomed paths)
        opened attachments messages commits := by
  intro doomed
  have hrows : ∀ m ∈ foundMessages db p ids, m ∈ db.messages.rows ∧ p m :=
    fun m hm => mem_filter.1 (mem_of_fetch hm)
  have hfound : ∀ path ∈ foundPaths db doomed paths, path ∈ db.pathsWhere doomed :=
    fun path hpath => mem_of_fetch hpath
  have hids : (ids.fetch (db.messagesWhere p)).getD [] = foundMessages db p ids := rfl
  unfold purgeMessages
  dsimp only
  rw [run_bind, select_of_idle]
  dsimp only
  rw [hids]
  by_cases hempty : foundMessages db p ids = []
  · rw [if_pos hempty]
    exact iff_of_true ⟨.nil, .nil⟩ (.inl hempty)
  · rw [if_neg hempty, run_bind, select_of_idle, run_bind, PurgeCommits, or_iff_right hempty]
    by_cases hopened : opened = .ok
    · rw [hopened, begin_of_ok, if_pos rfl, or_iff_right (not_not.2 rfl)]
      obtain ⟨hmessages, hattachments⟩ := purge_base db p attachments messages commits
      refine and_congr (messagesCommitted_iff hempty hrows hmessages)
        (pathsCommitted_iff hfound ?_ hattachments)
      intro a ha
      exact (Bool.and_eq_true _ _ ▸ ha).1
    · rw [begin_of_not_ok hopened, if_neg Bool.false_ne_true]
      exact iff_of_true ⟨.nil, .nil⟩ (.inl hopened)

/-! ## The other functions -/

/-- A wipe's return is committed, unless its transaction does not open. -/
theorem wipeChannel_committed (db : Tables) (channelId : String) (paths : Reading)
    (opened attachments messages commits : Outcome) :
    let doomed (a : DbAttachment) := a.channelId = channelId && a.storagePath ≠ some ""
    let r := (wipeChannel channelId paths).run
      ⟨db, none, [opened, attachments, messages, commits]⟩
    PathsCommitted db r.2.base doomed r.1.unlinkPaths ↔
      foundPaths db doomed paths = [] ∨ opened = .ok := by
  intro doomed
  have hfound : ∀ path ∈ foundPaths db doomed paths, path ∈ db.pathsWhere doomed :=
    fun path hpath => mem_of_fetch hpath
  unfold wipeChannel
  dsimp only
  rw [run_bind, select_of_idle]
  unfold foundPaths at hfound ⊢
  cases hpaths : paths.fetch (db.pathsWhere doomed) with
  | none => exact iff_of_true .nil (.inl rfl)
  | some found =>
    rw [hpaths] at hfound
    dsimp only
    rw [run_bind]
    by_cases hopened : opened = .ok
    · rw [hopened, begin_of_ok, if_pos rfl]
      refine iff_of_true ?_ (.inr rfl)
      by_cases hok : attachments = .ok ∧ messages = .ok ∧ commits = .ok
      · obtain ⟨rfl, rfl, rfl⟩ := hok
        exact pathsCommitted_of_deleteWhere hfound (fun a ha => (Bool.and_eq_true _ _ ▸ ha).1) rfl
      · -- the transaction is undone, and no path is returned
        cases attachments <;> cases messages <;> cases commits <;>
          first | exact .nil | exact absurd ⟨rfl, rfl, rfl⟩ hok
    · rw [begin_of_not_ok hopened, if_neg Bool.false_ne_true, or_iff_left hopened]
      exact pathsCommitted_of_unchanged rfl

theorem deleteMessageRows_committed {db : Tables} {channelId : String} {messageId : Int}
    {found : List String} {saved : Option Tables}
    (hfound : ∀ path ∈ found,
      path ∈ db.pathsWhere fun a => a.messageId = messageId && a.storagePath ≠ some "")
    (attachments messages commits : Outcome) :
    let r := (deleteMessageRows channelId messageId found).run
      ⟨db, saved, [attachments, messages, commits]⟩
    MessagesCommitted db r.2.base (if r.1.ok then [messageId] else []) ∧
      PathsCommitted db r.2.base (fun a => a.messageId = messageId && a.storagePath ≠ some "")
        r.1.unlinkPaths := by
  intro r
  by_cases hok : attachments = .ok ∧ messages = .ok
  · obtain ⟨rfl, rfl⟩ := hok
    let t : Tables := { db with
      attachments := db.attachments.deleteWhere (·.messageId = messageId)
      messages := db.messages.deleteWhere (isMessage channelId messageId) }
    have hrun : r = (if decide ((db.messagesWhere (isMessage channelId messageId)).length = 1) then do
        if ← commit then return { ok := true, unlinkPaths := found } else undoDelete
      else undoDelete : StateM (Conn Tables) DeleteMessageResult).run ⟨t, saved, [commits]⟩ := rfl
    rw [hrun]
    split
    · rename_i hone
      obtain ⟨m, hm⟩ := length_eq_one_iff.1 (of_decide_eq_true hone)
      have hm : m ∈ db.messages.rows ∧ isMessage channelId messageId m :=
        mem_filter.1 (hm ▸ mem_singleton_self m : m ∈ db.messagesWhere _)
      have hid : m.id = messageId := of_decide_eq_true (Bool.and_eq_true _ _ ▸ hm.2).1
      by_cases hcommits : saved ≠ none ∧ commits = .ok
      · obtain ⟨hsaved, rfl⟩ := hcommits
        obtain ⟨base, rfl⟩ := Option.ne_none_iff_exists'.1 hsaved
        refine ⟨?_, pathsCommitted_of_deleteWhere hfound
          (fun a ha => (Bool.and_eq_true _ _ ▸ ha).1) rfl⟩
        rw [← hid]
        exact messagesCommitted_of_deleteWhere (forall_mem_singleton.2 hm) rfl
      · -- without a transaction, or when the commit fails, there is nothing to return
        cases saved <;> cases commits <;>
          first | exact ⟨.nil, .nil⟩ | exact absurd ⟨nofun, rfl⟩ hcommits
    · exact ⟨.nil, .nil⟩
  · have hrun : r.1 = {} := by
      cases attachments <;> cases messages <;> first | rfl | exact absurd ⟨rfl, rfl⟩ hok
    rw [hrun]
    exact ⟨.nil, .nil⟩

theorem deleteMessage_committed (db : Tables) (channelId : String) (messageId : Int)
    (paths : Reading) (opened attachments messages commits : Outcome) :
    let r := (deleteMessage channelId messageId paths).run
      ⟨db, none, [opened, attachments, messages, commits]⟩
    MessagesCommitted db r.2.base (if r.1.ok then [messageId] else []) ∧
      PathsCommitted db r.2.base (fun a => a.messageId = messageId && a.storagePath ≠ some "")
        r.1.unlinkPaths := by
  unfold deleteMessage
  dsimp only
  rw [run_bind]
  by_cases hopened : opened = .ok
  · rw [hopened, begin_of_ok, if_pos rfl, run_bind]
    cases paths with
    | refused => exact ⟨.nil, .nil⟩
    | rows most =>
      exact deleteMessageRows_committed (fun path hpath => mem_of_mem_take hpath)
        attachments messages commits
    | aborted most =>
      exact deleteMessageRows_committed (fun path hpath => mem_of_mem_take hpath)
        attachments messages commits
  · rw [begin_of_not_ok hopened, if_neg Bool.false_ne_true]
    exact ⟨.nil, .nil⟩

theorem pruneAttachments_committed (db : Tables) (channelId : String) (kind : Nat)
    (cutoff now : Int) (rows : Reading) (update : Outcome) :
    let r := (pruneAttachments channelId kind cutoff now rows).run ⟨db, none, [update]⟩
    TombstonesCommitted db r.2.base r.1 := by
  unfold pruneAttachments
  dsimp only
  rw [run_bind, select_of_idle]
  dsimp only
  split
  · exact nofun
  · rw [run_bind]
    cases update with
    | ok =>
      intro p hp
      obtain ⟨a, ha, rfl⟩ := mem_map.1 hp
      obtain ⟨hmem, hstale⟩ := mem_filter.1 (mem_of_fetch ha)
      refine ⟨a, hmem, rfl, rfl, rfl, ?_⟩
      exact mem_map.2 ⟨a, hmem, if_pos hstale⟩
    | fail | abort => exact nofun

/-! ## All of them -/

/-- The connection outside any transaction, with the answers to come. -/
abbrev connTo (db : Tables) (outcomes : List Outcome) : Conn Tables := ⟨db, none, outcomes⟩

/-- Whatever is held and answered, what is returned for unlinking and telling is committed exactly
    when: of the two purges, `PurgeCommits`; of a wipe, no path was found or the transaction opened;
    of a message's deletion and a prune, always. -/
theorem deletions_committed (db : Tables) (ids paths : Reading)
    (opened attachments messages commits : Outcome) :
    (∀ channelId cutoff,
      let doomed a := db.ofMessages (isExpired channelId cutoff) a && true
      let r := (pruneTextMessages channelId cutoff ids paths).run
        (connTo db [opened, attachments, messages, commits])
      (MessagesCommitted db r.2.base r.1.deletedIds ∧
          PathsCommitted db r.2.base doomed r.1.unlinkPaths) ↔
        PurgeCommits (foundMessages db (isExpired channelId cutoff) ids)
          (foundPaths db doomed paths) opened attachments messages commits) ∧
    (∀ senderUid since,
      let doomed a := db.ofMessages (isSentSince senderUid since) a && a.storagePath ≠ some ""
      let r := (deleteMessagesBySenderSince senderUid since ids paths).run
        (connTo db [opened, attachments, messages, commits])
      (MessagesCommitted db r.2.base (r.1.messages.map (·.2)) ∧
          PathsCommitted db r.2.base doomed r.1.unlinkPaths) ↔
        senderUid = 0 ∨ PurgeCommits (foundMessages db (isSentSince senderUid since) ids)
          (foundPaths db doomed paths) opened attachments messages commits) ∧
    (∀ channelId,
      let doomed (a : DbAttachment) := a.channelId = channelId && a.storagePath ≠ some ""
      let r := (wipeChannel channelId paths).run
        (connTo db [opened, attachments, messages, commits])
      PathsCommitted db r.2.base doomed r.1.unlinkPaths ↔
        foundPaths db doomed paths = [] ∨ opened = .ok) ∧
    (∀ channelId messageId,
      let r := (deleteMessage channelId messageId paths).run
        (connTo db [opened, attachments, messages, commits])
      MessagesCommitted db r.2.base (if r.1.ok then [messageId] else []) ∧
        PathsCommitted db r.2.base (fun a => a.messageId = messageId && a.storagePath ≠ some "")
          r.1.unlinkPaths) ∧
    (∀ channelId kind cutoff now rows,
      let r := (pruneAttachments channelId kind cutoff now rows).run (connTo db [opened])
      TombstonesCommitted db r.2.base r.1) := by
  refine ⟨?_, ?_, ?_, ?_, ?_⟩
  · intro channelId cutoff
    exact purge_committed db (isExpired channelId cutoff) (fun _ => true) ids paths
      opened attachments messages commits
  · intro senderUid since
    dsimp only
    unfold deleteMessagesBySenderSince
    by_cases hzero : senderUid = 0
    · rw [if_pos hzero]
      exact iff_of_true ⟨.nil, .nil⟩ (.inl hzero)
    · rw [if_neg hzero, or_iff_right hzero, run_bind]
      refine Iff.trans ?_ (purge_committed db (isSentSince senderUid since)
        (fun a => a.storagePath ≠ some "") ids paths opened attachments messages commits)
      refine and_congr_left fun _ => ?_
      refine iff_of_eq (congrArg _ ?_)
      exact List.map_map
  · exact fun channelId => wipeChannel_committed db channelId paths opened attachments messages commits
  · exact fun channelId messageId =>
      deleteMessage_committed db channelId messageId paths opened attachments messages commits
  · exact fun channelId kind cutoff now rows =>
      pruneAttachments_committed db channelId kind cutoff now rows opened

/-- A channel with one old message, and its attachment. -/
def oneAttachment : Tables where
  messages := ⟨[{ id := 1, channelId := "general", senderUid := 7 }], List.nodup_singleton _⟩
  attachments :=
    ⟨[{ id := 1, channelId := "general", uploaderUid := 7, messageId := 1, storagePath := some "1" }],
      List.nodup_singleton _⟩

/-- A prune's commit fails, or a purge's delete, or a wipe cannot begin: what is named is still
    there. -/
theorem not_deletions_committed :
    (let r := (pruneTextMessages "general" 10 (.rows 9) (.rows 9)).run
        (connTo oneAttachment [.ok, .ok, .ok, .fail]);
      ¬ MessagesCommitted oneAttachment r.2.base r.1.deletedIds ∧
        ¬ PathsCommitted oneAttachment r.2.base (fun _ => true) r.1.unlinkPaths) ∧
    (let r := (deleteMessagesBySenderSince 7 0 (.rows 9) (.rows 9)).run
        (connTo oneAttachment [.ok, .ok, .fail, .ok]);
      ¬ MessagesCommitted oneAttachment r.2.base (r.1.messages.map (·.2))) ∧
    (let r := (wipeChannel "general" (.rows 9)).run (connTo oneAttachment [.fail]);
      ¬ PathsCommitted oneAttachment r.2.base (fun _ => true) r.1.unlinkPaths) := by
  refine ⟨⟨fun h => ?_, fun h => ?_⟩, fun h => ?_, fun h => ?_⟩
  · exact (h 1 (by decide)).2 _ List.mem_cons_self rfl
  · exact (h "1" (by decide)).2 _ List.mem_cons_self rfl rfl _ List.mem_cons_self rfl
  · exact (h 1 (by decide)).2 _ List.mem_cons_self rfl
  · exact (h "1" (by decide)).2 _ List.mem_cons_self rfl rfl _ List.mem_cons_self rfl

end Decibell
