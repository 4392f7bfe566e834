import Decibell.Community.OverwriteSafety

/-!
# Overwrite requests over whole runs

`overwriteSystem` are the runs of a server from a database that is in order, as one without channels
is (`settled_empty`): the operations of the database, nothing failing in them, and the two requests
about a channel's permissions, whatever fails.
-/

namespace Decibell

open Lib Lib.Conn Tables ChannelLayout List

namespace CommunityDb

open Memory

/-! ## Operations that leave the channels alone -/

/-- The statement leaves channels, and of rows all but their presence. -/
def Sheds (stmt : Stmt) : Prop := ∀ t t', stmt t = some t' → t'.channels = t.channels ∧
  ∀ ow ∈ t'.overwrites.rows, ∃ r ∈ t.overwrites.rows,
    r.channelId = ow.channelId ∧ r.allow = ow.allow ∧ r.deny = ow.deny

theorem sheds_of_frame {stmt : Stmt}
    (h : ∀ t t', stmt t = some t' → t'.channels = t.channels ∧ t'.overwrites = t.overwrites) :
    Sheds stmt := fun t t' hs =>
  ⟨(h t t' hs).1, fun ow how => ⟨ow, (h t t' hs).2 ▸ how, rfl, rfl, rfl⟩⟩

theorem sheds_deleteOverwrites (p : DbOverwrite → Bool) : Sheds (deleteOverwrites p) := by
  rintro t _ ⟨⟩
  exact ⟨rfl, fun ow how => ⟨ow, (mem_filter.1 how).1, rfl, rfl, rfl⟩⟩

theorem Sheds.settled {stmt : Stmt} (h : Sheds stmt) : Preserves Settled stmt := by
  intro t t' ht hs
  obtain ⟨hc, hrows⟩ := h t t' hs
  have hord : t'.ordered = t.ordered := by simp only [ordered, hc]
  refine ⟨⟨?_, fun c hcr hsynced => ?_, fun ow how => ?_, hc ▸ ht.sync.named⟩, fun ow how => ?_⟩
  · rw [hc, hord]
    exact ht.sync.follows
  · refine filter_eq_nil_iff.2 fun ow how hid => ?_
    obtain ⟨r, hr, hrid, -⟩ := hrows ow how
    have hnil := ht.sync.noRows c (hc ▸ hcr) hsynced
    exact filter_eq_nil_iff.1 hnil r hr (by rw [hrid]; exact hid)
  · obtain ⟨r, hr, hrid, -⟩ := hrows ow how
    rw [hc, ← hrid]
    exact ht.sync.owned r hr
  · obtain ⟨r, hr, -, hallow, hdeny⟩ := hrows ow how
    exact ProperRow.congr (ht.proper r hr) hallow hdeny

/-- Rows and flags are in order, whatever is remembered. -/
def InOrder (_ : Memory) (t : Tables) : Prop := Settled t

theorem keeps_createRole_inOrder (rawName : Bytes) (color : BitVec 32) (permissions : Permissions)
    (manageEachOther : Bool) :
    Keeps (Quiet InOrder) (createRole rawName color permissions manageEachOther) := by
  refine .ite .pure (Keeps.seq (fun _ hd => ⟨hd.rel, hd.idle⟩) fun _ => triple_begin ?_ Keeps.pure)
  refine (keeps_exec fun _ => Sheds.settled ?_).seq fun _ => .get_bind fun d _ => ?_
  · exact sheds_of_frame (by rintro t _ ⟨⟩; exact ⟨rfl, rfl⟩)
  refine (keeps_exec fun _ => Sheds.settled ?_).seq fun _ => .ite (fun _ => ?_) fun _ => ?_
  · refine sheds_of_frame fun t t' h => ?_
    obtain ⟨roles, -, rfl⟩ := Option.map_eq_some_iff.1 h
    exact ⟨rfl, rfl⟩
  · exact triple_commit.bind fun _ => Keeps.pure
  · exact triple_rollback.bind fun _ => Keeps.pure

theorem keeps_updateRole_inOrder (roleId : Int) (rawName : Bytes) (color : BitVec 32)
    (permissions : Permissions) (position : Int) (manageEachOther : Bool) :
    Keeps (Quiet InOrder) (updateRole roleId rawName color permissions position manageEachOther) := by
  refine .get_bind fun d _ => ?_
  dsimp only
  cases d.tables.findRole roleId with
  | none => exact Keeps.pure
  | some cur =>
  refine Keeps.seq (fun _ hd => ⟨hd.rel, hd.idle⟩) fun _ => Keeps.ite ?_ (.ite .pure ?_)
  · exact keeps_quiet_exec fun _ => (sheds_of_frame (by rintro t _ ⟨⟩; exact ⟨rfl, rfl⟩)).settled
  · refine keeps_transact fun stmt hs _ => (sheds_of_frame ?_).settled
    simp only [moveRoles, mem_append, mem_singleton] at hs
    rcases hs with hs | rfl
    · split at hs
      · cases hs
      split at hs <;> obtain rfl := mem_singleton.1 hs <;> rintro t _ ⟨⟩ <;> exact ⟨rfl, rfl⟩
    · rintro t _ ⟨⟩
      exact ⟨rfl, rfl⟩

theorem keeps_deleteRole_inOrder (roleId : Int) : Keeps (Quiet InOrder) (deleteRole roleId) := by
  refine .get_bind fun d _ => ?_
  cases d.tables.findRole roleId with
  | none => exact Keeps.pure
  | some cur =>
  refine Keeps.ite .pure (Keeps.seq (fun _ hd => ⟨hd.rel, hd.idle⟩) fun _ =>
    Keeps.seq (fun _ hd => ⟨hd.rel, hd.idle⟩) fun _ => keeps_transact fun stmt hs _ => ?_)
  simp only [mem_cons, not_mem_nil, or_false] at hs
  rcases hs with rfl | rfl | rfl | rfl
  · exact (sheds_deleteOverwrites _).settled
  all_goals exact (sheds_of_frame (by rintro t _ ⟨⟩; exact ⟨rfl, rfl⟩)).settled

theorem keeps_setMemberRoles_inOrder (uid : Uid) (roleIds : List Int) :
    Keeps (Quiet InOrder) (setMemberRoles uid roleIds) := by
  refine .get_bind fun d _ => Keeps.ite (Keeps.seq (fun _ hd => ⟨hd.rel, hd.idle⟩) fun _ =>
    keeps_transact fun stmt hs _ => (sheds_of_frame ?_).settled) .pure
  rcases mem_cons.1 hs with rfl | hs
  · rintro t _ ⟨⟩
    exact ⟨rfl, rfl⟩
  · obtain ⟨id, -, rfl⟩ := mem_map.1 hs
    rintro t _ ⟨⟩
    exact ⟨rfl, rfl⟩

theorem keeps_addMember_inOrder (uid : Uid) (username : String) (nameIat now : Int) :
    Keeps (Quiet InOrder) (addMember uid username nameIat now) := by
  refine .ite .pure (Keeps.seq (fun _ hd => ⟨hd.rel, hd.idle⟩) fun _ =>
    keeps_quiet_exec fun _ => (sheds_of_frame fun t t' h => ?_).settled)
  obtain ⟨members, -, rfl⟩ := Option.map_eq_some_iff.1 h
  exact ⟨rfl, rfl⟩

theorem keeps_forgetUser_inOrder (uid : Uid) : Keeps (Quiet InOrder) (forgetUser uid) :=
  fun _ hd => ⟨hd.rel, hd.idle⟩

theorem keeps_removeMember_inOrder (uid : Uid) : Keeps (Quiet InOrder) (removeMember uid) := by
  refine (keeps_forgetUser_inOrder uid).seq fun _ => triple_begin ?_ Keeps.pure
  refine (keeps_exec fun _ => (sheds_deleteOverwrites _).settled).seq fun _ => ?_
  refine (keeps_exec fun _ => (sheds_of_frame ?_).settled).seq fun _ => .get_bind fun d _ => ?_
  · rintro t _ ⟨⟩
    exact ⟨rfl, rfl⟩
  refine (keeps_exec fun _ => (sheds_of_frame ?_).settled).seq fun _ => .ite (fun _ => ?_) fun _ => ?_
  · rintro t _ ⟨⟩
    exact ⟨rfl, rfl⟩
  · exact triple_commit.bind fun _ => Keeps.pure
  · exact triple_rollback.bind fun _ => Keeps.pure

theorem keeps_addBan_inOrder (uid : Uid) (username : Bytes) (bannedByUid : Uid)
    (bannedBy reason : Bytes) (expiresAt now : Int) :
    Keeps (Quiet InOrder) (addBan uid username bannedByUid bannedBy reason expiresAt now) := by
  have hframe : ∀ {stmt : Stmt}, Sheds stmt → Keeps (Inv InOrder) (sql (exec stmt)) := fun h =>
    keeps_exec fun _ => h.settled
  refine .ite .pure ((keeps_forgetUser_inOrder uid).seq fun _ => triple_begin ?_ Keeps.pure)
  refine (hframe (sheds_deleteOverwrites _)).seq fun _ => ?_
  refine (hframe (sheds_of_frame ?_)).seq fun _ => (hframe (sheds_of_frame ?_)).seq fun _ =>
    (hframe (sheds_of_frame ?_)).seq fun ok => triple_finish.bind fun _ => Keeps.pure
  all_goals
    rintro t _ ⟨⟩
    exact ⟨rfl, rfl⟩

theorem keeps_setMeta_inOrder (key value : String) :
    Keeps (Quiet InOrder) (setMeta key value) ∧ Keeps (Inv InOrder) (setMeta key value) := by
  have hstmt : ∀ m, Preserves (InOrder m) (Tables.setMeta key value) := fun _ =>
    (sheds_of_frame (by rintro t _ ⟨⟩; exact ⟨rfl, rfl⟩)).settled
  constructor
  · exact (keeps_quiet_exec hstmt).seq fun _ => Keeps.ite (fun _ hd => ⟨hd.rel, hd.idle⟩) .pure
  · exact (keeps_exec hstmt).seq fun _ => Keeps.ite (fun _ hd => hd) .pure

theorem sheds_rekeyOverwrites (p : DbOverwrite → Bool) (targetId : String) :
    Sheds fun t => some { t with overwrites := t.overwrites.rekeyOrIgnore p ({ · with targetId }) } := by
  rintro t _ ⟨⟩
  refine ⟨rfl, fun ow how => ?_⟩
  rcases Table.mem_rekeyOrIgnore how with how | ⟨r, hr, rfl⟩
  · exact ⟨ow, how, rfl, rfl, rfl⟩
  · exact ⟨r, hr, rfl, rfl, rfl⟩

theorem sheds_claimRewrites {uid placeholder : Uid} {stmt : Stmt}
    (hs : stmt ∈ claimRewrites uid placeholder) : Sheds stmt := by
  simp only [claimRewrites, mem_cons, not_mem_nil, or_false] at hs
  casesm* _ ∨ _ <;> subst stmt
  all_goals first
    | exact sheds_deleteOverwrites _
    | exact sheds_rekeyOverwrites _ _
    | exact sheds_of_frame (by rintro t _ ⟨⟩; exact ⟨rfl, rfl⟩)

theorem keeps_transferOwnership_inOrder (newOwnerUid : Uid) :
    Keeps (Quiet InOrder) (transferOwnership newOwnerUid) :=
  .get_bind fun _ _ => Keeps.ite ((keeps_setMeta_inOrder _ _).1.seq fun _ => Keeps.pure) .pure

theorem keeps_claimLegacy_inOrder (uid : Uid) (username : String) (now : Int) :
    Keeps (Quiet InOrder) (claimLegacy uid username now) := by
  refine .get_bind fun d _ => Keeps.ite .pure (.ite ?_ ?_)
  · refine (keeps_quiet_exec fun _ => Sheds.settled ?_).seq fun _ => Keeps.pure
    exact sheds_of_frame (by rintro t _ ⟨⟩; exact ⟨rfl, rfl⟩)
  dsimp only
  cases d.tables.legacyClaims.find? username with
  | none => exact Keeps.pure
  | some c =>
  refine Keeps.ite .pure (Keeps.seq (fun _ hd => ⟨hd.rel, hd.idle⟩) fun _ =>
    Keeps.seq (fun _ hd => ⟨hd.rel, hd.idle⟩) fun _ => triple_begin ?_ Keeps.pure)
  refine (keeps_execAll fun stmt hs _ => (sheds_claimRewrites hs).settled).seq fun ok => ?_
  have hend : Triple (Inv InOrder) (do
      sql (finish ok)
      if ok then return some c.2
      else
        modify fun d => { d with
          ownerCache := (stoll (d.tables.getMeta "owner_uid")).getD d.ownerCache }
        invalidatePermCache
        return none) fun _ => Quiet InOrder :=
    triple_finish.bind fun _ => Keeps.ite .pure fun _ hd => ⟨hd.rel, hd.idle⟩
  exact .get_bind fun d _ => .ite (fun _ => (keeps_setMeta_inOrder _ _).2.seq fun _ => hend)
    fun _ => hend

/-! ## The operations of a run -/

/-- The operations other than those that set rows. -/
def aside : DbOp → Bool
  | .setOverwrite _ | .syncChannelPermissions _ | .restoreChannelOverwrites .. => false
  | _ => true

theorem ProperRows.of_rules {t t' : Tables} (ht : ProperRows t) (hinv : SyncInv t')
    (h : ∀ ow ∈ t'.overwrites.rows, t'.rules ow.channelId = t.rules ow.channelId ∨
      ow ∈ t.overwrites.rows) : ProperRows t' := by
  intro ow how
  rcases h ow how with hrules | hsame
  · obtain ⟨c, hc, hid⟩ := mem_map.1 (hinv.owned ow how)
    have hown : ow ∈ t'.overwritesOf ow.channelId := mem_filter.2 ⟨how, decide_eq_true rfl⟩
    have hu : t'.Unsynced ow.channelId := by
      rw [← hid] at hown ⊢
      refine unsynced_of_row hc fun hs => ?_
      rw [hinv.noRows c hc hs] at hown
      cases hown
    have hmem : ow.rule ∈ t.rules ow.channelId := by
      rw [← hrules, rules_of_unsynced hu]
      exact mem_map_of_mem hown
    obtain ⟨r, hr, hrule⟩ := mem_map.1 hmem
    have hbits : r.allow = ow.allow ∧ r.deny = ow.deny := by
      simp only [DbOverwrite.rule, Prod.mk.injEq] at hrule
      exact hrule.2.2
    exact ProperRow.congr (ht r (mem_filter.1 hr).1) hbits.1 hbits.2
  · exact ht ow hsame

/-- In a run caches are right, rows and flags in order. -/
structure InRun (d : CommunityDb) : Prop where
  quiet : Quiet (Sound fun _ _ => True) d
  settled : Settled d.tables

theorem InRun.perform {d : CommunityDb} (hd : InRun d) {op : DbOp} (hop : aside op = true) :
    InRun (d.perform [] op) := by
  have hsync : InSyncRun d := ⟨hd.quiet, hd.settled.sync⟩
  have hf : Quiet InOrder (d.facing []) := ⟨hd.settled, hd.quiet.idle⟩
  have hq : Quiet (Sound fun _ _ => True) (d.facing []) := ⟨hd.quiet.rel, hd.quiet.idle⟩
  have hqueries : ∀ d', SameState (d.facing []) d' → Settled d'.tables := fun d' h =>
    h.tables ▸ hd.settled
  have hquiet : Quiet (Sound fun _ _ => True) (d.perform [] op) := by
    refine quiet_perform hd.quiet ?_ (fun u _ => keeps_transferOwnership (fun _ _ => trivial) u _ hq)
      fun u n now _ => keeps_claimLegacy (fun _ _ => trivial) u n now _ hq
    cases op <;> first | trivial | exact .inr (by simp [facing])
  refine ⟨hquiet, ?_⟩
  cases op with
  | createRole n c p m => exact (keeps_createRole_inOrder n c p m _ hf).rel
  | updateRole r n c p i m => exact (keeps_updateRole_inOrder r n c p i m _ hf).rel
  | deleteRole r => exact (keeps_deleteRole_inOrder r _ hf).rel
  | setMemberRoles u rs => exact (keeps_setMemberRoles_inOrder u rs _ hf).rel
  | addMember u n i now => exact (keeps_addMember_inOrder u n i now _ hf).rel
  | removeMember u => exact (keeps_removeMember_inOrder u _ hf).rel
  | addBan u n bu b r e now => exact (keeps_addBan_inOrder u n bu b r e now _ hf).rel
  | transferOwnership u => exact (keeps_transferOwnership_inOrder u _ hf).rel
  | claimLegacy u n now => exact (keeps_claimLegacy_inOrder u n now _ hf).rel
  | setCategorySync k on =>
    have hc : ofChannels (.setCategorySync k on) = true := rfl
    obtain ⟨-, hs, hrules⟩ := hsync.perform hc (sees_setCategorySync hd.settled.sync k on)
    exact ⟨hs, ProperRows.of_rules hd.settled.proper hs fun ow _ =>
      .inl (hrules _ (Option.some_ne_none _))⟩
  | createChannel n t v c e =>
    have hc : ofChannels (.createChannel n t v c e) = true := rfl
    obtain ⟨-, hover, hs, -⟩ := hsync.perform hc (sees_createChannel hd.settled.sync n t v c e)
    exact ⟨hs, ProperRows.of_rules hd.settled.proper hs fun ow how => .inr (hover ▸ how)⟩
  | deleteChannel k =>
    have hc : ofChannels (.deleteChannel k) = true := rfl
    obtain ⟨-, ⟨hs, hrules⟩, hgone⟩ := hsync.perform hc (sees_deleteChannel hd.settled.sync k)
    refine ⟨hs, ProperRows.of_rules hd.settled.proper hs fun ow how => ?_⟩
    by_cases hk : ow.channelId = k
    · have hrow := hgone ow (mem_filter.2 ⟨how, decide_eq_true hk⟩)
      exact .inr (mem_filter.1 hrow).1
    · exact .inl (hrules _ fun h => hk (Option.some.inj h))
  | reorderChannels ids =>
    have hc : ofChannels (.reorderChannels ids) = true := rfl
    obtain ⟨-, hs, hrules⟩ := hsync.perform hc (sees_reorderChannels hd.settled.sync ids)
    exact ⟨hs, ProperRows.of_rules hd.settled.proper hs fun ow _ =>
      .inl (hrules _ (Option.some_ne_none _))⟩
  | grantVoicePass u id => exact hd.settled
  | revokeVoicePass u id =>
    have hkeeps : Keeps (Quiet InOrder) (revokeVoicePass u id) :=
      .get_bind fun _ _ => Keeps.ite (Keeps.seq (fun _ h => ⟨h.rel, h.idle⟩) fun _ => Keeps.pure) .pure
    exact (hkeeps _ hf).rel
  | effectivePermissions u => exact hqueries _ (effectivePermissions_spec hq u).same
  | memberLevel u => exact hqueries _ (memberLevel_spec hq u).same
  | listOverwrites id => exact hqueries _ (listOverwrites_spec hq id).same
  | channelPermissions u id => exact hqueries _ (channelPermissions_spec hq u id).same
  | setOverwrite ow => cases hop
  | syncChannelPermissions id => cases hop
  | restoreChannelOverwrites id rows => cases hop

/-! ## Runs -/

/-- A request about a channel's permissions. -/
inductive OverwriteReq
  | set (ow : OverwriteSetReq)
  | sync (channelId categoryId : String)

def handleOverwrite (now : Int) (s : Session) : OverwriteReq → DbM (ChannelActionRes × List ChannelPush)
  | .set ow => overwriteSet now s ow
  | .sync channelId categoryId => permissionsSync now s channelId categoryId

/-- An operation of the database, or such a request. -/
inductive OverwriteAct
  | op (op : DbOp)
  | request (now : Int) (s : Session) (req : OverwriteReq)

/-- The answer to a request with the answers `os`, and the object after. -/
def serveOverwrite (d : CommunityDb) (os : List Outcome) (now : Int) (s : Session) (req : OverwriteReq) :
    (ChannelActionRes × List ChannelPush) × CommunityDb :=
  (handleOverwrite now s req).run (d.facing os)

/-- The runs from a database in order; only requests have failures. -/
def overwriteSystem : System CommunityDb (List Outcome × OverwriteAct) where
  init d := d.Opened ∧ Settled d.tables
  step d a d' :=
    match a.2 with
    | .op op => a.1 = [] ∧ aside op = true ∧ d' = d.perform [] op
    | .request now s req => d' = (d.serveOverwrite a.1 now s req).2

section Requests

variable {d : CommunityDb} {os : List Outcome} {now : Int} {s : Session}

theorem InRun.facing (hd : InRun d) (os : List Outcome) :
    On d.ownerCache d.voicePasses d.tables os (d.facing os) := by
  have hq : Quiet (Sound fun _ _ => True) (d.facing os) := ⟨hd.quiet.rel, hd.quiet.idle⟩
  exact hq.facing

theorem InRun.of_on {owner : Uid} {passes : Memo Uid (List String)} {t : Tables} (ht : Settled t)
    (hd : On owner passes t os d) : InRun d := by
  refine ⟨hd.quiet, ?_⟩
  rw [hd.tables]
  exact ht

def isCategory (t : Tables) (id : String) : Prop :=
  ∃ c ∈ t.channels.rows, c.id = id ∧ c.type = .category

instance (t : Tables) (id : String) : Decidable (isCategory t id) :=
  inferInstanceAs (Decidable (∃ c ∈ t.channels.rows, c.id = id ∧ c.type = .category))

/-- What the one who asks may do in a channel. -/
def permsOf (d : CommunityDb) (s : Session) (id : String) : Permissions :=
  ((channelPermissions s.uid id).run d).1

theorem InRun.permsOf (hd : InRun d) (s : Session) :
    d.permsOf s = d.tables.permsIn d.ownerCache d.voicePasses s.uid :=
  funext fun id => (channelPermissions_spec hd.quiet s.uid id).value

theorem InRun.overwriteSet (hd : InRun d) (ow : OverwriteSetReq) :
    let r := d.serveOverwrite os now s (.set ow)
    InRun r.2 ∧ Tried (d.permsOf s) ow.channelId d.tables os r.1 r.2.tables := by
  intro r
  obtain ⟨t', os', htried, hon⟩ : Trying d.ownerCache d.voicePasses
    (d.tables.permsIn d.ownerCache d.voicePasses s.uid) ow.channelId d.tables os r.1 r.2 :=
      on_overwriteSet hd.settled ow _ (hd.facing os)
  rw [hd.permsOf, hon.tables]
  exact ⟨.of_on htried.settled hon, htried⟩

theorem InRun.syncChannel (hd : InRun d) {id : String} (category : String)
    (hid : ¬isCategory d.tables id) :
    let r := d.serveOverwrite os now s (.sync id category)
    InRun r.2 ∧ Tried (d.permsOf s) id d.tables os r.1 r.2.tables := by
  intro r
  obtain ⟨t', os', htried, hon⟩ : Trying d.ownerCache d.voicePasses
    (d.tables.permsIn d.ownerCache d.voicePasses s.uid) id d.tables os r.1 r.2 :=
      on_permissionsSync_channel hd.settled category
        (fun c hc hcid htype => hid ⟨c, hc, hcid, htype⟩) _ (hd.facing os)
  rw [hd.permsOf, hon.tables]
  exact ⟨.of_on htried.settled hon, htried⟩

theorem InRun.syncCategory (hd : InRun d) {id : String} (category : String)
    (hid : isCategory d.tables id) :
    let r := d.serveOverwrite os now s (.sync id category)
    InRun r.2 ∧ SyncedBy (d.permsOf s) id d.tables os r.1 r.2.tables := by
  intro r
  obtain ⟨t', os', hsynced, hon⟩ : ∃ t' os',
    SyncedBy (d.tables.permsIn d.ownerCache d.voicePasses s.uid) id d.tables os r.1 t' ∧
      On d.ownerCache d.voicePasses t' os' r.2 :=
    on_permissionsSync_category hd.settled category hid _ (hd.facing os)
  rw [hd.permsOf, hon.tables]
  exact ⟨.of_on hsynced.settled hon, hsynced⟩

theorem inRun_of_reachable (hd : overwriteSystem.Reachable d) : InRun d := by
  refine System.reachable_invariant (I := InRun) ?_ ?_ hd
  · rintro d ⟨ho, hd⟩
    exact ⟨ho.sound trivial, hd⟩
  · rintro d ⟨os, op | ⟨now, s, ow | ⟨id, category⟩⟩⟩ d' hd hstep
    · obtain ⟨-, hop, rfl⟩ := hstep
      exact hd.perform hop
    · cases hstep
      exact (hd.overwriteSet ow).1
    · cases hstep
      by_cases hid : isCategory d.tables id
      · exact (hd.syncCategory category hid).1
      · exact (hd.syncChannel category hid).1

end Requests

/-! ## The requests -/

/-- `k` syncs and has `a` and `b`; everyone manages messages in `k` and `a`. 1 owns, 2 manages
    roles. -/
def halfAlike : CommunityDb where
  ownerCache := 1
  conn := { tables := {
    serverMeta := .ofRows [⟨"owner_uid", "1"⟩]
    members := .ofRows [⟨1, "ada", 0, [], 0, 0, false, false⟩, ⟨2, "bob", 0, [], 0, 0, false, false⟩]
    roles := .ofRows [
      { id := 1, name := [], position := 0, permissions := Perms.kViewChannel, isDefault := true },
      { id := 2, name := [109], position := 1, permissions := Perms.kManageRoles }]
    memberRoles := .ofRows [⟨2, 2⟩]
    roleSequence := 2
    channels := .ofRows [
      { id := "k", name := [107], type := .category, position := 0, permSynced := false,
        categorySync := true },
      { id := "a", name := [97], type := .text, position := 1, permSynced := false },
      { id := "b", name := [98], type := .text, position := 2, permSynced := false }]
    overwrites := .ofRows [⟨"k", 0, "1", Perms.kManageMessages, 0⟩,
      ⟨"a", 0, "1", Perms.kManageMessages, 0⟩] } }

theorem reachable_halfAlike : overwriteSystem.Reachable halfAlike := by
  have hunsynced : ∀ c ∈ halfAlike.tables.channels.rows, c.permSynced = false := by decide
  have hsync : SyncInv halfAlike.tables := by
    refine ⟨fun c hc hs => ?_, fun c hc hs => ?_, by decide, by decide⟩
    · rw [hunsynced c hc] at hs
      cases hs
    · rw [hunsynced c hc] at hs
      cases hs
  refine .init ⟨⟨rfl, by decide, rfl, rfl, rfl, fun h => ?_⟩, hsync, by decide⟩
  cases h

/-- Everyone is denied the view of `a`. -/
def hideA : OverwriteSetReq :=
  { channelId := "a", targetType := .role, targetId := "1", allow := 0, deny := Perms.kViewChannel }

/-- The row of `a` goes. -/
def clearA : OverwriteSetReq :=
  { channelId := "a", targetType := .role, targetId := "1", allow := 0, deny := 0 }

end CommunityDb
end Decibell
