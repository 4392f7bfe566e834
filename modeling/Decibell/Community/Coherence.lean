import Decibell.Community.CacheMembers
import Decibell.Community.CacheChannels
import Decibell.Lib.Run

/-!
# The caches are coherent

`dbSystem` are the runs of a database object: its operations and queries in any order, each with any
of its statements failing. An object is `Coherent` when every query answers what it answers once the
caches are emptied (`cold`).
-/

namespace Decibell

open Lib Lib.Conn

/-- The owner's uid as `server_meta` has it. -/
def ownerOf (serverMeta : Table DbMeta.key) : Uid :=
  (stoll (((serverMeta.find? "owner_uid").map DbMeta.value).getD "")).getD 0

/-- An operation or a query of the database object. -/
inductive DbOp
  | createRole (rawName : Bytes) (color : BitVec 32) (permissions : Permissions)
      (manageEachOther : Bool)
  | updateRole (roleId : Int) (rawName : Bytes) (color : BitVec 32) (permissions : Permissions)
      (position : Int) (manageEachOther : Bool)
  | deleteRole (roleId : Int)
  | setMemberRoles (uid : Uid) (roleIds : List Int)
  | addMember (uid : Uid) (username : String) (nameIat now : Int)
  | removeMember (uid : Uid)
  | addBan (uid : Uid) (username : Bytes) (bannedByUid : Uid) (bannedBy reason : Bytes)
      (expiresAt now : Int)
  | transferOwnership (newOwnerUid : Uid)
  | claimLegacy (uid : Uid) (username : String) (now : Int)
  | setOverwrite (ow : DbOverwrite)
  | syncChannelPermissions (channelId : String)
  | restoreChannelOverwrites (channelId : String) (rows : List DbOverwrite)
  | setCategorySync (categoryId : String) (on : Bool)
  | createChannel (rawName : Bytes) (type : ChannelType) (voiceBitrateKbps : Int)
      (categoryId : String) (encrypted : Bool)
  | deleteChannel (channelId : String)
  | reorderChannels (orderedIds : List String)
  | grantVoicePass (uid : Uid) (channelId : String)
  | revokeVoicePass (uid : Uid) (channelId : String)
  | effectivePermissions (uid : Uid)
  | memberLevel (uid : Uid)
  | listOverwrites (channelId : String)
  | channelPermissions (uid : Uid) (channelId : String)

namespace DbOp

/-- Runs the operation; its result is not looked at. -/
def run : DbOp → DbM Unit
  | createRole n c p m => do let _ ← CommunityDb.createRole n c p m
  | updateRole r n c p i m => do let _ ← CommunityDb.updateRole r n c p i m
  | deleteRole r => do let _ ← CommunityDb.deleteRole r
  | setMemberRoles u rs => do let _ ← CommunityDb.setMemberRoles u rs
  | addMember u n i now => do let _ ← CommunityDb.addMember u n i now
  | removeMember u => do let _ ← CommunityDb.removeMember u
  | addBan u n bu b r e now => do let _ ← CommunityDb.addBan u n bu b r e now
  | transferOwnership u => do let _ ← CommunityDb.transferOwnership u
  | claimLegacy u n now => do let _ ← CommunityDb.claimLegacy u n now
  | setOverwrite ow => do let _ ← CommunityDb.setOverwrite ow
  | syncChannelPermissions id => do let _ ← CommunityDb.syncChannelPermissions id
  | restoreChannelOverwrites id rows => do let _ ← CommunityDb.restoreChannelOverwrites id rows
  | setCategorySync id on => do let _ ← CommunityDb.setCategorySync id on
  | createChannel n t v c e => do let _ ← CommunityDb.createChannel n t v c e
  | deleteChannel id => do let _ ← CommunityDb.deleteChannel id
  | reorderChannels ids => do let _ ← CommunityDb.reorderChannels ids
  | grantVoicePass u id => CommunityDb.grantVoicePass u id
  | revokeVoicePass u id => do let _ ← CommunityDb.revokeVoicePass u id
  | effectivePermissions u => do let _ ← CommunityDb.effectivePermissions u
  | memberLevel u => do let _ ← CommunityDb.memberLevel u
  | listOverwrites id => do let _ ← CommunityDb.listOverwrites id
  | channelPermissions u id => do let _ ← CommunityDb.channelPermissions u id

end DbOp

namespace CommunityDb

open Memory

/-- The object before an operation whose statements are answered with `outcomes`. -/
def facing (d : CommunityDb) (outcomes : List Outcome) : CommunityDb :=
  { d with conn := { d.conn with outcomes } }

/-- The object after an operation. -/
def perform (d : CommunityDb) (outcomes : List Outcome) (op : DbOp) : CommunityDb :=
  (op.run.run (d.facing outcomes)).2

/-- As opened: nothing is cached but, perhaps, the layout. -/
structure Opened (d : CommunityDb) : Prop where
  idle : d.conn.Idle
  owner : d.ownerCache = ownerOf d.tables.serverMeta
  perm : d.permCache = .empty
  channelPerm : d.channelPermCache = .empty
  overwrites : d.overwritesCache = .empty
  layout : d.layoutValid = true → d.layout = d.tables.layout

/-- The runs of a database object. -/
def dbSystem : System CommunityDb (List Outcome × DbOp) where
  init := Opened
  step d a d' := d' = d.perform a.1 a.2

/-- The object with its caches emptied. -/
def cold (d : CommunityDb) : CommunityDb :=
  { conn := d.conn, ownerCache := d.ownerCache, voicePasses := d.voicePasses }

/-- Every query answers what it answers with all caches empty. -/
structure Coherent (d : CommunityDb) : Prop where
  effectivePermissions : ∀ uid,
    ((effectivePermissions uid).run d).1 = ((effectivePermissions uid).run d.cold).1
  memberLevel : ∀ uid, ((memberLevel uid).run d).1 = ((memberLevel uid).run d.cold).1
  listOverwrites : ∀ channelId,
    ((listOverwrites channelId).run d).1 = ((listOverwrites channelId).run d.cold).1
  channelPermissions : ∀ uid channelId,
    ((channelPermissions uid channelId).run d).1 = ((channelPermissions uid channelId).run d.cold).1

variable {X : Uid → Table DbMeta.key → Prop}

theorem Quiet.coherent {d : CommunityDb} (hd : Quiet (Sound X) d) : d.Coherent := by
  have hc : Quiet (Sound X) d.cold :=
    ⟨⟨hd.rel.owner, Memo.sound_empty, Memo.sound_empty, nofun, nofun⟩, hd.idle⟩
  constructor
  · intro uid
    rw [(effectivePermissions_spec hd uid).value, (effectivePermissions_spec hc uid).value]
    rfl
  · intro uid
    rw [(memberLevel_spec hd uid).value, (memberLevel_spec hc uid).value]
    rfl
  · intro channelId
    rw [(listOverwrites_spec hd channelId).value, (listOverwrites_spec hc channelId).value]
    rfl
  · intro uid channelId
    rw [(channelPermissions_spec hd uid channelId).value,
      (channelPermissions_spec hc uid channelId).value]
    rfl

theorem Opened.sound {d : CommunityDb} (hd : d.Opened) (hX : X d.ownerCache d.tables.serverMeta) :
    Quiet (Sound X) d :=
  ⟨⟨hX, hd.perm ▸ Memo.sound_empty, hd.overwrites ▸ Memo.sound_empty, hd.layout, by
    simp [hd.channelPerm]⟩, hd.idle⟩

/-! ## Steps -/

/-- A channel's creation leaves the right layout behind. -/
def LayoutKept (d : CommunityDb) (a : List Outcome × DbOp) : Prop :=
  match a.2 with
  | .createChannel .. => (d.facing a.1).CreatesSoundly
  | _ => True

/-- The owner, a 64-bit uid, is written with no statement failing. -/
def OwnerKept (_ : CommunityDb) (a : List Outcome × DbOp) : Prop :=
  match a.2 with
  | .transferOwnership u | .claimLegacy u _ _ => IsInt64 u ∧ ∀ o ∈ a.1, o = .ok
  | _ => True

/-- The owner remembered is the owner in `server_meta`. -/
def InSync (owner : Uid) (serverMeta : Table DbMeta.key) : Prop := owner = ownerOf serverMeta

theorem quiet_perform {d : CommunityDb} {os : List Outcome} {op : DbOp}
    (hd : Quiet (Sound X) d) (hc : d.LayoutKept (os, op))
    (ht : ∀ u, op = .transferOwnership u → Quiet (Sound X) ((transferOwnership u).run (d.facing os)).2)
    (hl : ∀ u n now, op = .claimLegacy u n now →
      Quiet (Sound X) ((claimLegacy u n now).run (d.facing os)).2) :
    Quiet (Sound X) (d.perform os op) := by
  have hf : Quiet (Sound X) (d.facing os) := ⟨hd.rel, hd.idle⟩
  cases op with
  | createRole n c p m => exact keeps_createRole n c p m _ hf
  | updateRole r n c p i m => exact keeps_updateRole r n c p i m _ hf
  | deleteRole r => exact keeps_deleteRole r _ hf
  | setMemberRoles u rs => exact keeps_setMemberRoles u rs _ hf
  | addMember u n i now => exact keeps_addMember u n i now _ hf
  | removeMember u => exact keeps_removeMember u _ hf
  | addBan u n bu b r e now => exact keeps_addBan u n bu b r e now _ hf
  | transferOwnership u => exact ht u rfl
  | claimLegacy u n now => exact hl u n now rfl
  | setOverwrite ow => exact keeps_setOverwrite ow _ hf
  | syncChannelPermissions id => exact keeps_syncChannelPermissions id _ hf
  | restoreChannelOverwrites id rows => exact keeps_restoreChannelOverwrites id rows _ hf
  | setCategorySync id on => exact keeps_setCategorySync id on _ hf
  | createChannel n t v c e => exact triple_createChannel hf hc n t v c e _ rfl
  | deleteChannel id => exact keeps_deleteChannel id _ hf
  | reorderChannels ids => exact keeps_reorderChannels ids _ hf
  | grantVoicePass u id => exact keeps_grantVoicePass u id _ hf
  | revokeVoicePass u id => exact keeps_revokeVoicePass u id _ hf
  | effectivePermissions u => exact (effectivePermissions_spec hf u).quiet
  | memberLevel u => exact (memberLevel_spec hf u).quiet
  | listOverwrites id => exact (listOverwrites_spec hf id).quiet
  | channelPermissions u id => exact (channelPermissions_spec hf u id).quiet

/-! ## The owner remembered -/

theorem ownerOf_upsert {u : Uid} (hu : IsInt64 u)
    (serverMeta : Table DbMeta.key) : ownerOf (serverMeta.upsert ⟨"owner_uid", toString u⟩) = u := by
  have h : (serverMeta.upsert ⟨"owner_uid", toString u⟩).find? "owner_uid" =
      some ⟨"owner_uid", toString u⟩ := Table.find?_upsert
  rw [ownerOf, h, Option.map_some, Option.getD_some, stoll_toString hu, Option.getD_some]

theorem setMeta_owner {d : CommunityDb} (hok : d.conn.AllOk) (value : String) :
    (setMeta "owner_uid" value).run d = ((), { d with
      conn := { d.conn.used with
        tables := { d.tables with serverMeta := d.tables.serverMeta.upsert ⟨"owner_uid", value⟩ } }
      ownerCache := (stoll value).getD 0
      permCache := .empty
      channelPermCache := .empty }) := by
  have hrun := exec_of_ok (Tables.setMeta "owner_uid" value) hok.next rfl
  have hsql : (sql (exec (Tables.setMeta "owner_uid" value))).run d =
      (true, { d with conn := { d.conn.used with
        tables := { d.tables with
          serverMeta := d.tables.serverMeta.upsert ⟨"owner_uid", value⟩ } } }) := by
    simp only [sql, StateT.run] at hrun ⊢
    rw [hrun]
  rw [setMeta, run_bind, hsql, if_pos rfl]
  rfl

theorem sound_setMeta {m : Memory} {t : Tables} (hm : m.Sound X t) {u : Uid}
    (hu : IsInt64 u) :
    ({ m with ownerCache := u, permCache := .empty, channelPermCache := .empty } : Memory).Sound
      InSync { t with serverMeta := t.serverMeta.upsert ⟨"owner_uid", toString u⟩ } where
  owner := (ownerOf_upsert hu _).symm
  perm := Memo.sound_empty
  overwrites := hm.overwrites
  layout := hm.layout
  channelPerm := by simp

theorem transferOwnership_inSync {u : Uid} (hu : IsInt64 u) :
    Keeps (fun d => Quiet (Sound InSync) d ∧ d.conn.AllOk) (transferOwnership u) := by
  refine .get_bind fun d _ => .ite (fun _ => ?_) fun _ => Keeps.pure
  refine Keeps.seq (fun d ⟨hd, hok⟩ => ?_) fun _ => Keeps.pure
  rw [setMeta_owner hok, stoll_toString hu]
  exact ⟨⟨sound_setMeta hd.rel hu, hd.idle⟩, hok.used⟩

/-- A claim in its transaction: nothing is held, nothing fails. -/
structure Claiming (d : CommunityDb) : Prop where
  inv : Inv (NoRows InSync) d
  allOk : d.conn.AllOk

theorem triple_begin_claim : Triple (fun d => Quiet (NoRows InSync) d ∧ d.conn.AllOk) (sql begin)
    fun b d => b = true ∧ Claiming d ∧ ∃ t, d.conn.saved = some t := by
  rintro d ⟨hd, hok⟩
  have hb : (begin (T := Tables)).run d.conn = (true, { d.conn.used with saved := some d.tables }) :=
    if_pos ⟨hok.next, hd.idle⟩
  have hinv : Inv (NoRows InSync) ((sql begin).run d).2 := within_begin d.conn hd.inv
  have hconn : ((sql begin).run d).2.conn = { d.conn.used with saved := some d.tables } :=
    congrArg Prod.snd hb
  exact ⟨congrArg Prod.fst hb, ⟨hinv, hconn ▸ hok.used⟩, _, congrArg Conn.saved hconn⟩

theorem triple_claimRewrites (u placeholder : Uid) :
    Triple (fun d => Claiming d ∧ ∃ t, d.conn.saved = some t)
      (sql (execAll (claimRewrites u placeholder)))
      fun ok d => Claiming d ∧ (ok = true → d.conn.saved ≠ none) := by
  rintro d ⟨hd, t, hs⟩
  refine ⟨⟨keeps_execAll (fun stmt hs m => preserves_claimRewrites hs) d hd.inv,
    keeps_allOk_execAll d.conn hd.allOk⟩, fun hok => ?_⟩
  rcases execAll_spec (claimRewrites u placeholder) hs with ⟨-, -, h⟩ | ⟨hno, -⟩
  · exact h.symm ▸ Option.some_ne_none t
  · exact absurd (hno.symm.trans hok) Bool.false_ne_true

theorem triple_setMeta_claim {u : Uid} (hu : IsInt64 u) :
    Triple (fun d => Claiming d ∧ d.conn.saved ≠ none) (setMeta "owner_uid" (toString u))
      fun _ d => d.toMemory.Sound InSync d.tables ∧ d.conn.AllOk ∧ d.conn.saved ≠ none := by
  rintro d ⟨hd, hs⟩
  rw [setMeta_owner hd.allOk, stoll_toString hu]
  exact ⟨sound_setMeta hd.inv.1.sound hu, hd.allOk.used, hs⟩

theorem triple_commit_claim :
    Triple (fun d => d.toMemory.Sound InSync d.tables ∧ d.conn.AllOk ∧ d.conn.saved ≠ none)
      (sql (finish true)) fun _ => Quiet (Sound InSync) := by
  rintro d ⟨hd, hok, hs⟩
  have hcommit : (finish true).run d.conn = ((), { d.conn.used with saved := none }) := by
    rw [finish, if_pos rfl, run_bind, commit_of_ok hok.next hs]
    rfl
  have hconn : ((sql (finish true)).run d).2.conn = { d.conn.used with saved := none } :=
    congrArg Prod.snd hcommit
  refine ⟨?_, congrArg Conn.saved hconn⟩
  rw [tables, hconn]
  exact hd

theorem inSync_reread {d : CommunityDb} (h : InSync d.ownerCache d.tables.serverMeta) :
    (stoll (d.tables.getMeta "owner_uid")).getD d.ownerCache = ownerOf d.tables.serverMeta := by
  have h : d.ownerCache = (stoll (d.tables.getMeta "owner_uid")).getD 0 := h
  rw [h]
  change _ = (stoll (d.tables.getMeta "owner_uid")).getD 0
  cases stoll (d.tables.getMeta "owner_uid") <;> rfl

theorem claimLegacy_inSync {u : Uid} (hu : IsInt64 u) (username : String)
    (now : Int) :
    Triple (fun d => Quiet (Sound InSync) d ∧ d.conn.AllOk) (claimLegacy u username now)
      fun _ => Quiet (Sound InSync) := by
  have hpure : ∀ r : Option Uid, Triple (fun d => Quiet (Sound InSync) d ∧ d.conn.AllOk) (pure r)
      fun _ => Quiet (Sound InSync) := fun _ _ h => h.1
  refine .get_bind fun d _ => .ite (fun _ => hpure _) fun _ => .ite (fun _ => ?_) fun _ => ?_
  · refine Triple.bind (Q := fun _ => Quiet (Sound InSync)) ?_ fun _ => .pure fun _ => id
    refine Triple.conseq (keeps_quiet_exec fun m => Sound.preserves ?_) (fun _ h => h.1) fun _ _ => id
    rintro t _ ⟨⟩
    exact ⟨id, rfl, rfl, rfl, rfl⟩
  dsimp only
  cases d.tables.legacyClaims.find? username with
  | none => exact hpure _
  | some c =>
  refine .ite (fun _ => hpure _) fun _ => ?_
  refine Triple.bind (Q := fun _ d => Quiet (NoPerms InSync) d ∧ d.conn.AllOk)
    (fun d hd => ⟨triple_invalidatePermCache d hd.1, hd.2⟩) fun _ => ?_
  refine Triple.bind (Q := fun _ d => Quiet (NoRows InSync) d ∧ d.conn.AllOk)
    (fun d hd => ⟨triple_clearOverwritesCache d hd.1, hd.2⟩) fun _ => ?_
  -- nothing fails, so the transaction opens
  refine Triple.bind (Q := fun b d => b = true ∧ Claiming d ∧ ∃ t, d.conn.saved = some t)
    triple_begin_claim fun b => ?_
  rintro d ⟨rfl, hd⟩
  rw [if_pos rfl]
  refine Triple.bind (R := fun _ => Quiet (Sound InSync)) (triple_claimRewrites u c.2)
    (fun ok => .get_bind fun d _ => ?_) d hd
  have hend : Triple (Inv (NoRows InSync)) (do
      sql (finish ok)
      if ok then return some c.2
      else
        modify fun d => { d with
          ownerCache := (stoll (d.tables.getMeta "owner_uid")).getD d.ownerCache }
        invalidatePermCache
        return none) fun _ => Quiet (Sound InSync) := by
    refine triple_finish.bind fun _ => .ite (fun _ => ?_) fun _ => ?_
    · exact .pure fun _ h => h.imp fun _ _ hm => hm.sound
    · exact fun d hd => ⟨setOwner_sound hd.rel.sound (inSync_reread hd.rel.sound.owner), hd.idle⟩
  refine .ite (fun h => ?_) fun _ => hend.conseq (fun _ h => h.1.inv) fun _ _ => id
  -- the placeholder owned the server: the owner is written, and the commit cannot fail
  obtain ⟨rfl, -⟩ := h
  refine Triple.bind (triple_setMeta_claim hu) (fun _ => triple_commit_claim.bind fun _ => ?_) |>.conseq
    (fun _ h => ⟨h.1, h.2 rfl⟩) fun _ _ h => h
  exact .pure fun _ => id

/-! ## Runs -/

/-- Two syncing categories, `k` that hides its channels and `z`; `a` follows `z`. -/
def twoCategories : CommunityDb where
  conn := { tables := {
    channels := ⟨[
      { id := "k", name := [107], type := .category, position := 0, categorySync := true },
      { id := "z", name := [122], type := .category, position := 1, categorySync := true },
      { id := "a", name := [97], type := .text, position := 2 }], by decide⟩
    roles := ⟨[{ id := 1, name := [], position := 0, permissions := 0, isDefault := true }], by decide⟩
    overwrites := ⟨[⟨"k", 0, "1", 0, Perms.kViewChannel⟩], by decide⟩ } }

theorem opened_twoCategories : twoCategories.Opened :=
  ⟨rfl, by decide, rfl, rfl, rfl, nofun⟩

/-- The channel `b` is created in `k`; `a`'s position cannot be written. -/
def failedCreation : CommunityDb :=
  twoCategories.perform [.ok, .ok, .ok, .fail] (.createChannel [98] .text 0 "k" false)

/-- The same creation with nothing failing. -/
def succeededCreation : CommunityDb :=
  twoCategories.perform [] (.createChannel [98] .text 0 "k" false)

end CommunityDb
end Decibell
