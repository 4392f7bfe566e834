import Decibell.Community.RolePositions
import Decibell.Lib.Rekey

/-!
# Legacy claims

An account takes over what the placeholder of its name left: it is `Reassigned`, rows under the uid
of the account win over those of the placeholder, and every other row is as it was
(`reassigned_claimed`). `claimLegacyAsking` is the claim with the answers to its lookups.
-/

namespace Decibell

open Lib Lib.Conn Tables
open Lib.Table (Column Patched replaced)

/-! ## Rows of the placeholder -/

def DbMember.reassign (p uid : Uid) (m : DbMember) : DbMember :=
  { m with uid := replaced p uid m.uid }

def DbMemberRole.reassign (p uid : Uid) (r : DbMemberRole) : DbMemberRole :=
  { r with uid := replaced p uid r.uid }

def DbOverwrite.reassign (p uid : Uid) (ow : DbOverwrite) : DbOverwrite :=
  if memberOverwrite p ow then { ow with targetId := toString uid } else ow

def DbBan.reassign (p uid : Uid) (b : DbBan) : DbBan :=
  { b with
    uid := replaced p uid b.uid
    bannedByUid := replaced p uid b.bannedByUid }

def DbInvite.reassign (p uid : Uid) (inv : DbInvite) : DbInvite :=
  { inv with
    createdByUid := replaced p uid inv.createdByUid
    forUid := replaced p uid inv.forUid }

def DbAttachment.reassign (p uid : Uid) (a : DbAttachment) : DbAttachment :=
  { a with uploaderUid := replaced p uid a.uploaderUid }

def DbKeyEpoch.reassign (p uid : Uid) (e : DbKeyEpoch) : DbKeyEpoch :=
  { e with createdByUid := replaced p uid e.createdByUid }

def DbKeyBlob.reassign (p uid : Uid) (b : DbKeyBlob) : DbKeyBlob :=
  { b with
    recipientUid := replaced p uid b.recipientUid
    senderUid := replaced p uid b.senderUid }

def DbKeyRefusal.reassign (p uid : Uid) (r : DbKeyRefusal) : DbKeyRefusal :=
  { r with
    recipientUid := replaced p uid r.recipientUid
    senderUid := replaced p uid r.senderUid }

def DbMessage.reassign (p uid : Uid) (m : DbMessage) : DbMessage :=
  { m with senderUid := replaced p uid m.senderUid }

def DbAuditEntry.reassign (p uid : Uid) (e : DbAuditEntry) : DbAuditEntry :=
  { e with
    actorUid := replaced p uid e.actorUid
    targetUid := replaced p uid e.targetUid }

/-- Some row names a user. -/
def Tables.Names (t : Tables) (x : Uid) : Prop :=
  (∃ m ∈ t.members.rows, m.uid = x) ∨ (∃ r ∈ t.memberRoles.rows, r.uid = x) ∨
  (∃ ow ∈ t.overwrites.rows, memberOverwrite x ow) ∨
  (∃ b ∈ t.bans.rows, b.uid = x ∨ b.bannedByUid = x) ∨
  (∃ inv ∈ t.invites.rows, inv.createdByUid = x ∨ inv.forUid = x) ∨
  (∃ a ∈ t.attachments.rows, a.uploaderUid = x) ∨ (∃ e ∈ t.keyEpochs.rows, e.createdByUid = x) ∨
  (∃ b ∈ t.keyBlobs.rows, b.recipientUid = x ∨ b.senderUid = x) ∨
  (∃ r ∈ t.keyRefusals.rows, r.recipientUid = x ∨ r.senderUid = x) ∨
  (∃ m ∈ t.messages.rows, m.senderUid = x) ∨
  (∃ e ∈ t.auditLog.rows, e.actorUid = x ∨ e.targetUid = x) ∨
  (∃ c ∈ t.legacyClaims.rows, c.uid = x) ∨ t.getMeta "owner_uid" = toString x

/-- What was the placeholder's is the account's: no row names the placeholder; rows keep all but the
    name, and of two with one key the one stays that had it. -/
structure Reassigned (uid p : Uid) (t t' : Tables) : Prop where
  unnamed : ¬t'.Names p
  members : Patched (DbMember.reassign p uid) t.members t'.members
  memberRoles : Patched (DbMemberRole.reassign p uid) t.memberRoles t'.memberRoles
  overwrites : Patched (DbOverwrite.reassign p uid) t.overwrites t'.overwrites
  bans : Patched (DbBan.reassign p uid) t.bans t'.bans
  invites : Patched (DbInvite.reassign p uid) t.invites t'.invites
  attachments : Patched (DbAttachment.reassign p uid) t.attachments t'.attachments
  keyEpochs : Patched (DbKeyEpoch.reassign p uid) t.keyEpochs t'.keyEpochs
  keyBlobs : Patched (DbKeyBlob.reassign p uid) t.keyBlobs t'.keyBlobs
  keyRefusals : Patched (DbKeyRefusal.reassign p uid) t.keyRefusals t'.keyRefusals
  messages : Patched (DbMessage.reassign p uid) t.messages t'.messages
  auditLog : Patched (DbAuditEntry.reassign p uid) t.auditLog t'.auditLog
  legacyClaims : t'.legacyClaims = t.legacyClaims.deleteWhere (·.uid = p)
  owner : t'.serverMeta = t.serverMeta ∨
    t'.serverMeta = t.serverMeta.upsert ⟨"owner_uid", toString uid⟩
  channels : t'.channels = t.channels
  roles : t'.roles = t.roles ∧ t'.roleSequence = t.roleSequence
  keyRotations : t'.keyRotations = t.keyRotations

/-! ## The rewrites -/

theorem applyAll_claimRewrites (uid p : Uid) (t : Tables) :
    applyAll (CommunityDb.claimRewrites uid p) t = some (CommunityDb.claimed uid p t) := rfl

/-! ### Columns that hold a uid -/

def DbMember.uidColumn : Column DbMember Uid where
  get := DbMember.uid
  put uid r := { r with uid }

def DbMemberRole.uidColumn : Column DbMemberRole Uid where
  get := DbMemberRole.uid
  put uid r := { r with uid }

def DbBan.uidColumn : Column DbBan Uid where
  get := DbBan.uid
  put uid r := { r with uid }

def DbBan.bannedByUidColumn : Column DbBan Uid where
  get := DbBan.bannedByUid
  put bannedByUid r := { r with bannedByUid }

def DbInvite.createdByUidColumn : Column DbInvite Uid where
  get := DbInvite.createdByUid
  put createdByUid r := { r with createdByUid }

def DbInvite.forUidColumn : Column DbInvite Uid where
  get := DbInvite.forUid
  put forUid r := { r with forUid }

def DbAttachment.uploaderUidColumn : Column DbAttachment Uid where
  get := DbAttachment.uploaderUid
  put uploaderUid r := { r with uploaderUid }

def DbKeyEpoch.createdByUidColumn : Column DbKeyEpoch Uid where
  get := DbKeyEpoch.createdByUid
  put createdByUid r := { r with createdByUid }

def DbKeyBlob.recipientUidColumn : Column DbKeyBlob Uid where
  get := DbKeyBlob.recipientUid
  put recipientUid r := { r with recipientUid }

def DbKeyBlob.senderUidColumn : Column DbKeyBlob Uid where
  get := DbKeyBlob.senderUid
  put senderUid r := { r with senderUid }

def DbKeyRefusal.recipientUidColumn : Column DbKeyRefusal Uid where
  get := DbKeyRefusal.recipientUid
  put recipientUid r := { r with recipientUid }

def DbKeyRefusal.senderUidColumn : Column DbKeyRefusal Uid where
  get := DbKeyRefusal.senderUid
  put senderUid r := { r with senderUid }

def DbMessage.senderUidColumn : Column DbMessage Uid where
  get := DbMessage.senderUid
  put senderUid r := { r with senderUid }

def DbAuditEntry.actorUidColumn : Column DbAuditEntry Uid where
  get := DbAuditEntry.actorUid
  put actorUid r := { r with actorUid }

def DbAuditEntry.targetUidColumn : Column DbAuditEntry Uid where
  get := DbAuditEntry.targetUid
  put targetUid r := { r with targetUid }

section Patches

variable {uid p : Uid}

theorem patched_members (h : uid ≠ p) (t : Tables) :
    Patched (DbMember.reassign p uid) t.members (CommunityDb.claimed uid p t).members :=
  Table.patched_key DbMember.uidColumn h _ fun _ _ => id

theorem patched_memberRoles (h : uid ≠ p) (t : Tables) :
    Patched (DbMemberRole.reassign p uid) t.memberRoles (CommunityDb.claimed uid p t).memberRoles :=
  Table.patched_key DbMemberRole.uidColumn h _ fun _ _ => congrArg Prod.fst

theorem memberOverwrite_reassigned (h : uid ≠ p) (ow : DbOverwrite) :
    memberOverwrite p { ow with targetId := toString uid } = false := by
  rw [memberOverwrite, Bool.and_eq_false_iff]
  exact .inr (decide_eq_false fun heq => h (toString_injective heq))

theorem patched_overwrites (h : uid ≠ p) (t : Tables) :
    Patched (DbOverwrite.reassign p uid) t.overwrites (CommunityDb.claimed uid p t).overwrites := by
  refine Table.patched_rekey (fun x y hk => ?_) fun r _ => memberOverwrite_reassigned h r
  have htype : x.targetType = y.targetType := congrArg (fun key => key.2.1) hk
  have hid : x.targetId = y.targetId := congrArg (fun key => key.2.2) hk
  rw [memberOverwrite, memberOverwrite, htype, hid]

theorem patched_bans (h : uid ≠ p) (t : Tables) :
    Patched (DbBan.reassign p uid) t.bans (CommunityDb.claimed uid p t).bans := by
  have hbanned := Table.patched_key DbBan.uidColumn h t.bans fun _ _ => id
  exact hbanned.comp (Table.patched_column DbBan.bannedByUidColumn p uid _ fun _ => rfl)
    (fun _ => id) fun _ _ => id

theorem patched_invites (uid p : Uid) (t : Tables) :
    Patched (DbInvite.reassign p uid) t.invites (CommunityDb.claimed uid p t).invites := by
  have hcreated := Table.patched_column DbInvite.createdByUidColumn p uid t.invites fun _ => rfl
  exact hcreated.comp (Table.patched_column DbInvite.forUidColumn p uid _ fun _ => rfl)
    (fun _ => id) fun _ _ => id

theorem patched_attachments (uid p : Uid) (t : Tables) :
    Patched (DbAttachment.reassign p uid) t.attachments (CommunityDb.claimed uid p t).attachments :=
  Table.patched_column DbAttachment.uploaderUidColumn p uid _ fun _ => rfl

theorem patched_keyEpochs (uid p : Uid) (t : Tables) :
    Patched (DbKeyEpoch.reassign p uid) t.keyEpochs (CommunityDb.claimed uid p t).keyEpochs :=
  Table.patched_column DbKeyEpoch.createdByUidColumn p uid _ fun _ => rfl

theorem patched_keyBlobs (h : uid ≠ p) (t : Tables) :
    Patched (DbKeyBlob.reassign p uid) t.keyBlobs (CommunityDb.claimed uid p t).keyBlobs := by
  have hreceived := Table.patched_key DbKeyBlob.recipientUidColumn h t.keyBlobs
    fun _ _ hk => congrArg (fun key => key.2.2) hk
  exact hreceived.comp (Table.patched_column DbKeyBlob.senderUidColumn p uid _ fun _ => rfl)
    (fun _ => id) fun _ _ => id

theorem patched_keyRefusals (h : uid ≠ p) (t : Tables) :
    Patched (DbKeyRefusal.reassign p uid) t.keyRefusals (CommunityDb.claimed uid p t).keyRefusals := by
  have hreceived := Table.patched_key DbKeyRefusal.recipientUidColumn h t.keyRefusals
    fun _ _ hk => congrArg (fun key => key.2.1) hk
  refine hreceived.comp (Table.patched_key DbKeyRefusal.senderUidColumn h _
    fun _ _ hk => congrArg (fun key => key.2.2) hk) (fun r hk => ?_) fun x y hk => ?_
  · have hrecipient : replaced p uid r.recipientUid = r.recipientUid :=
      congrArg (fun key => key.2.1) hk
    change (r.channelId, replaced p uid r.recipientUid, r.senderUid) = _
    rw [hrecipient]
  · have hchannel : x.channelId = y.channelId := congrArg (fun key => key.1) hk
    have hrecipient : x.recipientUid = y.recipientUid := congrArg (fun key => key.2.1) hk
    have hsender : x.senderUid = y.senderUid := congrArg (fun key => key.2.2) hk
    change (x.channelId, x.recipientUid, replaced p uid x.senderUid) = _
    rw [hchannel, hrecipient, hsender]
    rfl

theorem patched_messages (uid p : Uid) (t : Tables) :
    Patched (DbMessage.reassign p uid) t.messages (CommunityDb.claimed uid p t).messages :=
  Table.patched_column DbMessage.senderUidColumn p uid _ fun _ => rfl

theorem patched_auditLog (uid p : Uid) (t : Tables) :
    Patched (DbAuditEntry.reassign p uid) t.auditLog (CommunityDb.claimed uid p t).auditLog := by
  have hacted := Table.patched_column DbAuditEntry.actorUidColumn p uid t.auditLog fun _ => rfl
  exact hacted.comp (Table.patched_column DbAuditEntry.targetUidColumn p uid _ fun _ => rfl)
    (fun _ => id) fun _ _ => id

end Patches

/-- No row names the placeholder after the rewrites; it is no stored owner. -/
theorem not_names_claimed {uid p : Uid} (h : uid ≠ p) {t : Tables} {serverMeta : Table DbMeta.key}
    (howner : (((serverMeta.find? "owner_uid").map DbMeta.value).getD "") ≠ toString p) :
    ¬({ CommunityDb.claimed uid p t with serverMeta } : Tables).Names p := by
  rintro (⟨m, hm, hp⟩ | ⟨r, hr, hp⟩ | ⟨ow, how, hp⟩ | ⟨b, hb, hp⟩ | ⟨inv, hinv, hp⟩ | ⟨a, ha, hp⟩ |
    ⟨e, he, hp⟩ | ⟨b, hb, hp⟩ | ⟨r, hr, hp⟩ | ⟨m, hm, hp⟩ | ⟨e, he, hp⟩ | ⟨c, hc, hp⟩ | hp)
  · obtain ⟨r, -, rfl⟩ := (patched_members h t).only m hm
    exact Table.replaced_ne h _ hp
  · obtain ⟨r, -, rfl⟩ := (patched_memberRoles h t).only r hr
    exact Table.replaced_ne h _ hp
  · obtain ⟨r, -, rfl⟩ := (patched_overwrites h t).only ow how
    rw [DbOverwrite.reassign] at hp
    split at hp
    · rw [memberOverwrite_reassigned h] at hp
      cases hp
    · contradiction
  · obtain ⟨r, -, rfl⟩ := (patched_bans h t).only b hb
    exact hp.elim (Table.replaced_ne h _) (Table.replaced_ne h _)
  · obtain ⟨r, -, rfl⟩ := (patched_invites uid p t).only inv hinv
    exact hp.elim (Table.replaced_ne h _) (Table.replaced_ne h _)
  · obtain ⟨r, -, rfl⟩ := (patched_attachments uid p t).only a ha
    exact Table.replaced_ne h _ hp
  · obtain ⟨r, -, rfl⟩ := (patched_keyEpochs uid p t).only e he
    exact Table.replaced_ne h _ hp
  · obtain ⟨r, -, rfl⟩ := (patched_keyBlobs h t).only b hb
    exact hp.elim (Table.replaced_ne h _) (Table.replaced_ne h _)
  · obtain ⟨r, -, rfl⟩ := (patched_keyRefusals h t).only r hr
    exact hp.elim (Table.replaced_ne h _) (Table.replaced_ne h _)
  · obtain ⟨r, -, rfl⟩ := (patched_messages uid p t).only m hm
    exact Table.replaced_ne h _ hp
  · obtain ⟨r, -, rfl⟩ := (patched_auditLog uid p t).only e he
    exact hp.elim (Table.replaced_ne h _) (Table.replaced_ne h _)
  · have hgone := (List.mem_filter.1 hc).2
    simp [hp] at hgone
  · exact howner hp

theorem reassigned_claimed {uid p : Uid} (h : uid ≠ p) {t : Tables} {serverMeta : Table DbMeta.key}
    (hmeta : serverMeta = t.serverMeta ∧ t.getMeta "owner_uid" ≠ toString p ∨
      serverMeta = t.serverMeta.upsert ⟨"owner_uid", toString uid⟩) :
    Reassigned uid p t { CommunityDb.claimed uid p t with serverMeta } where
  unnamed := by
    refine not_names_claimed h ?_
    rcases hmeta with ⟨rfl, howner⟩ | rfl
    · exact howner
    · have hstored := Table.find?_upsert (t := t.serverMeta) (r := ⟨"owner_uid", toString uid⟩)
      rw [hstored]
      exact fun heq => h (toString_injective heq)
  members := patched_members h t
  memberRoles := patched_memberRoles h t
  overwrites := patched_overwrites h t
  bans := patched_bans h t
  invites := patched_invites uid p t
  attachments := patched_attachments uid p t
  keyEpochs := patched_keyEpochs uid p t
  keyBlobs := patched_keyBlobs h t
  keyRefusals := patched_keyRefusals h t
  messages := patched_messages uid p t
  auditLog := patched_auditLog uid p t
  legacyClaims := rfl
  owner := hmeta.imp And.left id
  channels := rfl
  roles := ⟨rfl, rfl⟩
  keyRotations := rfl

/-! ## The claim, and the answers to its lookups -/

/-- What a lookup makes of a row. -/
def heard {ρ : Type} (reading : Reading) (row : Option ρ) : Option ρ :=
  ((reading.fetch row.toList).getD []).head?

namespace CommunityDb

/-- The answers to the lookups of a claim. -/
structure ClaimReadings where
  deadline : Reading := .rows 1
  claim : Reading := .rows 1
  member : Reading := .rows 1
  owner : Reading := .rows 1

def ask {ρ : Type} (reading : Reading) (query : Tables → Option ρ) : DbM (Option ρ) := do
  let rows ← sql (select reading fun t => (query t).toList)
  return (rows.getD []).head?

/-- `get_meta_`: empty where the lookup fails. -/
def askMeta (reading : Reading) (key : String) : DbM String := do
  let row ← ask reading (·.serverMeta.find? key)
  return (row.map DbMeta.value).getD ""

/-- What the placeholder left is rewritten, in one transaction. -/
def takeOver (owner : Reading) (uid placeholder : Uid) : DbM (Option Uid) := do
  invalidatePermCache
  clearOverwritesCache
  if ← sql begin then
    let ok ← sql (execAll (claimRewrites uid placeholder))
    if ok ∧ (← get).ownerCache = placeholder then setMeta "owner_uid" (toString uid)
    sql (finish ok)
    if ok then return some placeholder
    else
      let stored ← askMeta owner "owner_uid"
      modify fun d => { d with ownerCache := (stoll stored).getD d.ownerCache }
      invalidatePermCache
      return none
  else return none

def dropClaims : Stmt := fun t => some { t with legacyClaims := .empty }

/-- `claim_legacy`. -/
def claimLegacyAsking (q : ClaimReadings) (uid : Uid) (username : String) (now : Int) :
    DbM (Option Uid) := do
  if uid ≤ 0 ∨ username = "" then return none
  else
    let claimsUntil := (stoll (← askMeta q.deadline "legacy_claims_until")).getD 0
    if claimsUntil > 0 ∧ now ≥ claimsUntil then
      -- past the deadline a name may belong to someone else
      let _ ← sql (exec dropClaims)
      return none
    else
      match ← ask q.claim (·.legacyClaims.find? username) with
      | none => return none
      | some c =>
        if c.uid ≥ 0 then return none
        else
          match ← sql (select q.member fun t => (t.members.find? uid).toList) with
          | none => return none
          | some rows => if rows ≠ [] then return none else takeOver q.owner uid c.uid

theorem ask_answered {ρ : Type} (query : Tables → Option ρ) (d : CommunityDb) :
    (ask (.rows 1) query).run d = (query d.tables, d) := by
  have hrun : (ask (.rows 1) query).run d = (((query d.tables).toList.take 1).head?, d) := rfl
  rw [hrun]
  cases query d.tables <;> rfl

theorem askMeta_answered (key : String) (d : CommunityDb) :
    (askMeta (.rows 1) key).run d = (d.tables.getMeta key, d) := by
  rw [askMeta, run_bind, ask_answered]
  rfl

variable {o uid p : Uid} {t : Tables} {os : List Outcome} {owner : Reading}

/-- The answers from the first rewrite to the first that fails. -/
abbrev rewritten (os : List Outcome) : Answered := answers (claimRewrites 0 0).length os.tail

/-- The owner is the placeholder, and is stored anew. -/
def OwnerStored (o p : Uid) (os : List Outcome) : Prop := o = p ∧ nextOf (rewritten os).left = .ok

/-- The rewrites are committed, the owner stored if it was the placeholder. -/
def Committed (o p : Uid) (os : List Outcome) : Prop :=
  (o = p → nextOf (rewritten os).left ≠ .abort ∧ nextOf (rewritten os).left.tail = .ok) ∧
    (o ≠ p → nextOf (rewritten os).left = .ok)

instance (o p : Uid) (os : List Outcome) : Decidable (OwnerStored o p os) :=
  inferInstanceAs (Decidable (_ ∧ _))

instance (o p : Uid) (os : List Outcome) : Decidable (Committed o p os) :=
  inferInstanceAs (Decidable ((_ → _) ∧ (_ → _)))

/-- What is left, `o` being the owner that was remembered. -/
structure Took (o uid p : Uid) (owner : Reading) (t : Tables) (os : List Outcome) (r : Option Uid)
    (d : CommunityDb) : Prop where
  unopened : nextOf os ≠ .ok → r = none ∧ d.ownerCache = o ∧ d.tables = t
  failed : nextOf os = .ok → (rewritten os).last ≠ .ok → r = none ∧ d.tables = t ∧
    d.ownerCache =
      (stoll (((heard owner (t.serverMeta.find? "owner_uid")).map DbMeta.value).getD "")).getD o
  taken : nextOf os = .ok → (rewritten os).last = .ok → r = some p ∧
    d.ownerCache = (if o = p then uid else o) ∧
      d.tables = if Committed o p os then
        { CommunityDb.claimed uid p t with
          serverMeta := if OwnerStored o p os then
            t.serverMeta.upsert ⟨"owner_uid", toString uid⟩ else t.serverMeta }
      else t

theorem facing_askMeta {M : Memory → Prop} (reading : Reading) (key : String) :
    Triple (Facing M ⟨t, none, os⟩) (askMeta reading key) fun v d =>
      v = (((heard reading (t.serverMeta.find? key)).map DbMeta.value).getD "") ∧
        Facing M ⟨t, none, os⟩ d := by
  have hselect := select_of_idle reading (fun t : Tables => (t.serverMeta.find? key).toList) t os
  refine Triple.bind_eq ?_ (.pure fun _ hd => ⟨rfl, hd⟩)
  exact (facing_sql hselect).bind_eq (.pure fun _ hd => ⟨rfl, hd⟩)

theorem facing_setMeta_owner (huid : IsInt64 uid) {M : Memory → Prop} {c : Conn Tables} :
    Triple (Facing M c) (setMeta "owner_uid" (toString uid)) fun _ =>
      Facing (·.ownerCache = uid) ((exec (Tables.setMeta "owner_uid" (toString uid))).run c).2 := by
  intro d hd
  have howner : ((setMeta "owner_uid" (toString uid)).run d).2.ownerCache =
      (stoll (toString uid)).getD 0 := rfl
  refine ⟨?_, ?_⟩
  · rw [stoll_toString huid] at howner
    exact howner
  · exact congrArg (fun c => ((exec (Tables.setMeta "owner_uid" (toString uid))).run c).2) hd.conn

theorem took_of_takeOver (huid : IsInt64 uid) (o p : Uid) (owner : Reading) (t : Tables)
    (os : List Outcome) : Triple (Facing (·.ownerCache = o) ⟨t, none, os⟩) (takeOver owner uid p)
      (Took o uid p owner t os) := by
  rw [takeOver]
  refine Triple.bind (Q := fun _ => Facing (·.ownerCache = o) ⟨t, none, os⟩)
    (fun d hd => ⟨hd.memory, hd.conn⟩) fun _ => ?_
  refine Triple.bind (Q := fun _ => Facing (·.ownerCache = o) ⟨t, none, os⟩)
    (fun d hd => ⟨hd.memory, hd.conn⟩) fun _ => ?_
  refine facing_begin (fun ho => ?_) fun ho => .pure fun d hd =>
    ⟨fun _ => ⟨rfl, hd.memory, hd.tables⟩, fun h => absurd h ho, fun h => absurd h ho⟩
  have hrewritten : answers (claimRewrites uid p).length os.tail = rewritten os := rfl
  have hexec := run_execAll (applyAll_claimRewrites uid p t) (some t) os.tail
  rw [hrewritten] at hexec
  rcases hexec with ⟨hlast, hrun⟩ | ⟨hlast, u, -, hrun⟩
  · refine (facing_sql hrun).bind_eq (.get_bind fun d hd => ?_)
    have hcache : d.ownerCache = o := hd.memory
    by_cases hop : o = p
    · rw [hcache, if_pos ⟨rfl, hop⟩]
      refine (facing_setMeta_owner huid).bind fun _ => ?_
      have hstore : Tables.setMeta "owner_uid" (toString uid) (CommunityDb.claimed uid p t) =
        some { CommunityDb.claimed uid p t with
          serverMeta := t.serverMeta.upsert ⟨"owner_uid", toString uid⟩ } := rfl
      -- what the commit makes of it, wherever the owner's statement left the connection
      have hend {c c' : Conn Tables} (hfinish : (finish true).run c = ((), c'))
          (ht : c'.tables = if Committed o p os then
            { CommunityDb.claimed uid p t with
              serverMeta := if OwnerStored o p os then
                t.serverMeta.upsert ⟨"owner_uid", toString uid⟩ else t.serverMeta }
            else t) : Triple (Facing (·.ownerCache = uid) c) (do
              sql (finish true)
              return some p) (Took o uid p owner t os) := by
        refine (facing_sql hfinish).bind_eq (.pure fun d hd => ?_)
        refine ⟨fun h => absurd ho h, fun _ h => absurd hlast h, fun _ _ => ⟨rfl, ?_, ?_⟩⟩
        · rw [if_pos hop]
          exact hd.memory
        · exact hd.tables.trans ht
      have hcommitted (hs : nextOf (rewritten os).left ≠ .abort) :
          Committed o p os ↔ nextOf (rewritten os).left.tail = .ok :=
        ⟨fun h => (h.1 hop).2, fun h => ⟨fun _ => ⟨hs, h⟩, fun hne => absurd hop hne⟩⟩
      by_cases hs : nextOf (rewritten os).left = .ok
      · have hstored : OwnerStored o p os := ⟨hop, hs⟩
        rw [exec_of_head_ok hstore hs]
        refine hend run_finish_true ?_
        simp only [hcommitted (hs ▸ Outcome.noConfusion), hstored, if_true]
      · have hstored : ¬OwnerStored o p os := fun h => hs h.2
        rw [exec_of_head_not_ok hs, failed]
        by_cases habort : nextOf (rewritten os).left = .abort
        · rw [if_pos habort]
          have hnot : ¬Committed o p os := fun h => (h.1 hop).1 habort
          refine hend (run_finish_idle true) ?_
          rw [if_neg hnot]
          rfl
        · rw [if_neg habort]
          refine hend run_finish_true ?_
          simp only [hcommitted habort, hstored, if_false]
          rfl
    · rw [hcache, if_neg fun h => hop h.2]
      refine (facing_sql run_finish_true).bind_eq (.pure fun d hd => ?_)
      have hcommitted : Committed o p os ↔ nextOf (rewritten os).left = .ok :=
        ⟨fun h => h.2 hop, fun h => ⟨fun hp => absurd hp hop, fun _ => h⟩⟩
      have hnot : ¬OwnerStored o p os := fun h => hop h.1
      refine ⟨fun h => absurd ho h, fun _ h => absurd hlast h, fun _ _ => ⟨rfl, ?_, ?_⟩⟩
      · rw [if_neg hop]
        exact hd.memory
      · rw [hd.tables, if_neg hnot]
        simp only [hcommitted]
        rfl
  · refine (facing_sql hrun).bind_eq (.get_bind fun d hd => ?_)
    have hnot : ¬((false : Bool) = true ∧ d.ownerCache = p) := fun h => Bool.false_ne_true h.1
    rw [if_neg hnot]
    refine (facing_sql (run_finish_false _)).bind_eq ?_
    refine (facing_askMeta owner "owner_uid").bind fun v => .of_and fun hv => ?_
    refine Triple.bind (Q := fun _ => Facing (·.ownerCache = (stoll v).getD o) ⟨t, none, _⟩)
      (fun d hd => ⟨?_, hd.conn⟩) fun _ => ?_
    · have hcache : d.ownerCache = o := hd.memory
      rw [← hcache]
      rfl
    · refine Triple.bind (Q := fun _ => Facing (·.ownerCache = (stoll v).getD o) ⟨t, none, _⟩)
        (fun d hd => ⟨hd.memory, hd.conn⟩) fun _ => .pure fun d hd => ?_
      refine ⟨fun h => absurd ho h, fun _ _ => ⟨rfl, hd.tables, ?_⟩, fun _ h => absurd h hlast⟩
      rw [← hv]
      exact hd.memory

/-! ## As a whole, or not at all -/

/-- What the lookup of a value of `server_meta` gives. -/
def heardMeta (reading : Reading) (t : Tables) (key : String) : String :=
  ((heard reading (t.serverMeta.find? key)).map DbMeta.value).getD ""

/-- The deadline for claims is past. -/
def ClaimReadings.over (q : ClaimReadings) (t : Tables) (now : Int) : Prop :=
  0 < (stoll (heardMeta q.deadline t "legacy_claims_until")).getD 0 ∧
    (stoll (heardMeta q.deadline t "legacy_claims_until")).getD 0 ≤ now

/-- The placeholder `p` is found that the account is to take over. -/
structure ClaimReadings.Finds (q : ClaimReadings) (t : Tables) (uid : Uid) (username : String)
    (now : Int) (p : Uid) : Prop where
  account : 0 < uid ∧ username ≠ ""
  inTime : ¬q.over t now
  claim : ∃ c, heard q.claim (t.legacyClaims.find? username) = some c ∧ c.uid = p
  placeholder : p < 0
  stranger : q.member.fetch (t.members.find? uid).toList = some []

/-- What is left where there is nothing to take over; `o` was remembered. -/
structure Declined (q : ClaimReadings) (o : Uid) (t : Tables) (now : Int) (r : Option Uid)
    (d : CommunityDb) : Prop where
  result : r = none
  owner : d.ownerCache = o
  tables : d.tables = t ∨ q.over t now ∧ d.tables = { t with legacyClaims := .empty }

theorem on_claimLegacyAsking (huid : IsInt64 uid) (q : ClaimReadings) (username : String)
    (now : Int) (o : Uid) (t : Tables) (os : List Outcome) :
    Triple (Facing (·.ownerCache = o) ⟨t, none, os⟩) (claimLegacyAsking q uid username now)
      fun r d => (∃ p, q.Finds t uid username now p ∧ Took o uid p q.owner t os r d) ∨
        (∀ p, ¬q.Finds t uid username now p) ∧ Declined q o t now r d := by
  have hnone (hno : ∀ p, ¬q.Finds t uid username now p) :
      Triple (Facing (·.ownerCache = o) ⟨t, none, os⟩) (pure none) fun r d =>
        (∃ p, q.Finds t uid username now p ∧ Took o uid p q.owner t os r d) ∨
          (∀ p, ¬q.Finds t uid username now p) ∧ Declined q o t now r d :=
    .pure fun d hd => .inr ⟨hno, rfl, hd.memory, .inl hd.tables⟩
  rw [claimLegacyAsking]
  refine .ite (fun h => hnone fun p hp => ?_) fun haccount => ?_
  · exact h.elim (Int.not_le.2 hp.account.1) hp.account.2
  refine (facing_askMeta q.deadline "legacy_claims_until").bind fun v => .of_and fun hv => ?_
  have hv : v = heardMeta q.deadline t "legacy_claims_until" := hv
  subst hv
  refine .ite (fun hover => ?_) fun hover => ?_
  · -- the claims that are left are dropped, if the statement runs
    have hno : ∀ p, ¬q.Finds t uid username now p := fun p hp => hp.inTime hover
    have hdrop : dropClaims t = some { t with legacyClaims := .empty } := rfl
    by_cases ho : nextOf os = .ok
    · refine (facing_sql (exec_of_head_ok hdrop ho)).bind_eq (.pure fun d hd => ?_)
      exact .inr ⟨hno, rfl, hd.memory, .inr ⟨hover, hd.tables⟩⟩
    · have hrun : (exec dropClaims).run ⟨t, none, os⟩ = (false, ⟨t, none, os.tail⟩) := by
        rw [exec_of_head_not_ok ho, failed_idle]
      exact (facing_sql hrun).bind_eq (.pure fun d hd =>
        .inr ⟨hno, rfl, hd.memory, .inl hd.tables⟩)
  have hclaim := select_of_idle q.claim
    (fun t : Tables => (t.legacyClaims.find? username).toList) t os
  refine Triple.bind_eq (a := heard q.claim (t.legacyClaims.find? username))
    ((facing_sql hclaim).bind_eq (.pure fun _ hd => ⟨rfl, hd⟩)) ?_
  cases hfound : heard q.claim (t.legacyClaims.find? username) with
  | none =>
    refine hnone fun p hp => ?_
    obtain ⟨c, hc, -⟩ := hp.claim
    rw [hfound] at hc
    cases hc
  | some c =>
    have hunique {p : Uid} (hp : q.Finds t uid username now p) : c.uid = p := by
      obtain ⟨c', hc', hcp⟩ := hp.claim
      rw [hfound] at hc'
      cases hc'
      exact hcp
    refine .ite (fun hpos => hnone fun p hp => ?_) fun hpos => ?_
    · exact Int.not_lt.2 hpos (hunique hp ▸ hp.placeholder)
    have hmember := select_of_idle q.member (fun t : Tables => (t.members.find? uid).toList) t os
    refine (facing_sql hmember).bind_eq ?_
    cases hrows : q.member.fetch (t.members.find? uid).toList with
    | none =>
      refine hnone fun p hp => ?_
      have hstranger := hp.stranger
      rw [hrows] at hstranger
      cases hstranger
    | some rows =>
      refine .ite (fun hne => hnone fun p hp => ?_) fun hne => ?_
      · have hstranger := hp.stranger
        rw [hrows] at hstranger
        exact hne (Option.some.inj hstranger)
      · obtain ⟨hpos', hname⟩ := not_or.1 haccount
        have hempty : rows = [] := not_not.1 hne
        have hfinds : q.Finds t uid username now c.uid :=
          ⟨⟨Int.not_le.1 hpos', hname⟩, hover, ⟨c, hfound, rfl⟩, Int.not_le.1 hpos,
            by rw [hrows, hempty]⟩
        exact (took_of_takeOver huid o c.uid q.owner t os).conseq (fun _ h => h)
          fun _ _ h => .inl ⟨c.uid, hfinds, h⟩

/-- The placeholder is taken over as a whole, or nothing is, tables and owner `o` as before, but for
    claims past the deadline. -/
structure Whole (q : ClaimReadings) (o : Uid) (t : Tables) (uid : Uid) (now : Int)
    (res : Option Uid × CommunityDb) : Prop where
  taken : ∀ p, res.1 = some p → Reassigned uid p t res.2.tables ∧
    res.2.ownerCache = if o = p then uid else o
  declined : res.1 = none → Declined q o t now res.1 res.2

/-- A claim that finds a placeholder goes through or is undone: where the rewrites ran the commit is
    made, and the placeholder is no stored owner; where one failed, the owner read back is the one
    remembered. -/
def GoesThrough (q : ClaimReadings) (o p : Uid) (t : Tables) (os : List Outcome) : Prop :=
  nextOf os = .ok →
  ((rewritten os).last = .ok →
    Committed o p os ∧ (OwnerStored o p os ∨ t.getMeta "owner_uid" ≠ toString p)) ∧
  ((rewritten os).last ≠ .ok → (stoll (heardMeta q.owner t "owner_uid")).getD o = o)

theorem mem_of_heard {ρ : Type} {reading : Reading} {row : Option ρ} {x : ρ}
    (h : heard reading row = some x) : row = some x := by
  have hmem := mem_of_fetch (List.mem_of_head? h)
  exact Option.mem_toList.1 hmem

theorem ClaimReadings.Finds.mem {q : ClaimReadings} {username : String} {now : Int}
    (h : q.Finds t uid username now p) : ∃ c ∈ t.legacyClaims.rows, c.uid = p := by
  obtain ⟨c, hc, hp⟩ := h.claim
  exact ⟨c, (Table.find?_eq_some.1 (mem_of_heard hc)).1, hp⟩

theorem ClaimReadings.Finds.unique {q : ClaimReadings} {username : String} {now : Int} {p' : Uid}
    (h : q.Finds t uid username now p) (h' : q.Finds t uid username now p') : p = p' := by
  obtain ⟨c, hc, hp⟩ := h.claim
  obtain ⟨c', hc', hp'⟩ := h'.claim
  rw [hc] at hc'
  cases hc'
  exact hp.symm.trans hp'

theorem committed_of_reassigned {d : CommunityDb} {r : Option Uid}
    (hmem : ∃ c ∈ t.legacyClaims.rows, c.uid = p) (htook : Took o uid p owner t os r d)
    (ho : nextOf os = .ok) (hlast : (rewritten os).last = .ok) (h : Reassigned uid p t d.tables) :
    Committed o p os ∧ (OwnerStored o p os ∨ t.getMeta "owner_uid" ≠ toString p) := by
  obtain ⟨-, -, htables⟩ := htook.taken ho hlast
  by_cases hcommitted : Committed o p os
  · rw [if_pos hcommitted] at htables
    refine ⟨hcommitted, or_iff_not_imp_left.2 fun hstored howner => h.unnamed ?_⟩
    rw [htables, if_neg hstored]
    exact .inr (.inr (.inr (.inr (.inr (.inr (.inr (.inr (.inr (.inr (.inr (.inr howner)))))))))))
  · rw [if_neg hcommitted] at htables
    obtain ⟨c, hc, hp⟩ := hmem
    have hgone := h.legacyClaims
    rw [htables] at hgone
    rw [hgone] at hc
    have hkept := (List.mem_filter.1 hc).2
    simp [hp] at hkept

/-- A claim is made as a whole or not at all exactly where it `GoesThrough` for the placeholder it
    finds, whatever tables, memory and answers are. -/
theorem claimLegacy_whole_iff (huid : IsInt64 uid) (m : Memory) (t : Tables) (os : List Outcome)
    (q : ClaimReadings) (username : String) (now : Int) :
    Whole q m.ownerCache t uid now ((claimLegacyAsking q uid username now).run ⟨m, ⟨t, none, os⟩⟩) ↔
      ∀ p, q.Finds t uid username now p → GoesThrough q m.ownerCache p t os := by
  have hasked := on_claimLegacyAsking huid q username now m.ownerCache t os ⟨m, ⟨t, none, os⟩⟩
    ⟨rfl, rfl⟩
  generalize (claimLegacyAsking q uid username now).run ⟨m, ⟨t, none, os⟩⟩ = res at *
  rcases hasked with ⟨p, hfinds, htook⟩ | ⟨hno, hdeclined⟩
  · have hne : uid ≠ p := fun h => Int.lt_asymm hfinds.account.1 (h ▸ hfinds.placeholder)
    constructor
    · intro hwhole p' hfinds' ho
      obtain rfl : p = p' := hfinds.unique hfinds'
      refine ⟨fun hlast => ?_, fun hlast => ?_⟩
      · obtain ⟨hsome, -⟩ := htook.taken ho hlast
        exact committed_of_reassigned hfinds.mem htook ho hlast (hwhole.taken p hsome).1
      · obtain ⟨hnone, -, howner⟩ := htook.failed ho hlast
        exact howner.symm.trans (hwhole.declined hnone).owner
    · intro hsound
      have hdeclined (hnone : res.1 = none) (howner : res.2.ownerCache = m.ownerCache)
          (htables : res.2.tables = t) : Whole q m.ownerCache t uid now res := by
        refine ⟨fun p' hp' => ?_, fun _ => ⟨hnone, howner, .inl htables⟩⟩
        rw [hnone] at hp'
        cases hp'
      by_cases ho : nextOf os = .ok
      · obtain ⟨hran, hfailed⟩ := hsound p hfinds ho
        by_cases hlast : (rewritten os).last = .ok
        · obtain ⟨hsome, howner, htables⟩ := htook.taken ho hlast
          obtain ⟨hcommitted, hstored⟩ := hran hlast
          rw [if_pos hcommitted] at htables
          refine ⟨fun p' hp' => ?_, fun hnone => ?_⟩
          · obtain rfl : p = p' := Option.some.inj (hsome.symm.trans hp')
            refine ⟨?_, howner⟩
            rw [htables]
            refine reassigned_claimed hne ?_
            by_cases hs : OwnerStored m.ownerCache p os
            · exact .inr (if_pos hs)
            · exact .inl ⟨if_neg hs, hstored.resolve_left hs⟩
          · rw [hsome] at hnone
            cases hnone
        · obtain ⟨hnone, htables, howner⟩ := htook.failed ho hlast
          exact hdeclined hnone (howner.trans (hfailed hlast)) htables
      · obtain ⟨hnone, howner, htables⟩ := htook.unopened ho
        exact hdeclined hnone howner htables
  · refine ⟨fun _ p hp => absurd hp (hno p), fun _ => ⟨fun p hp => ?_, fun _ => hdeclined⟩⟩
    rw [hdeclined.result] at hp
    cases hp

/-- The placeholder -1 of ann owns the server. -/
def placeheld : Tables where
  serverMeta := .ofRows [⟨"owner_uid", "-1"⟩]
  members := .ofRows [{ uid := -1, username := "ann", joinedAt := 0 }]
  legacyClaims := .ofRows [⟨"ann", -1⟩]

/-- What is remembered of it. -/
def owned : Memory where
  ownerCache := -1

/-- A claim's commit fails: it is reported, and the owner remembered is the account, the tables
    being as before. -/
theorem claim_lost :
    let res := (claimLegacy 5 "ann" 0).run ⟨owned, ⟨placeheld, none, List.replicate 26 .ok ++ [.fail]⟩⟩
    res.1 = some (-1) ∧ res.2.ownerCache = 5 ∧ res.2.tables.members.keys = [-1] ∧
      res.2.tables.getMeta "owner_uid" = "-1" := by
  decide +kernel

/-- With nothing failing the account takes over. -/
theorem claim_made : Whole {} (-1) placeheld 5 0
    ((claimLegacyAsking {} 5 "ann" 0).run ⟨owned, ⟨placeheld, none, []⟩⟩) := by
  refine (claimLegacy_whole_iff (by decide) owned placeheld [] {} "ann" 0).2 fun p hp _ => ?_
  obtain ⟨c, hc, hcp⟩ := hp.claim
  have hfound : heard (.rows 1) (placeheld.legacyClaims.find? "ann") = some ⟨"ann", -1⟩ := by decide
  obtain rfl : p = -1 := by
    rw [hfound] at hc
    cases hc
    exact hcp.symm
  exact ⟨fun _ => by decide, fun h => absurd (by decide) h⟩

end CommunityDb
end Decibell
