import Decibell.Community.CacheSound
import Decibell.Community.DbMembers

/-!
# Roles, members and the owner keep the caches sound

The writers of roles, members and bans keep `Memory.Sound`, whatever statements fail in them.
-/

namespace Decibell

open Lib Lib.Conn Tables List

/-! ## What has been forgotten -/

namespace Memory

/-- Nothing is held about any user. -/
structure NoPerms (X : Uid → Table DbMeta.key → Prop) (m : Memory) (t : Tables) : Prop where
  sound : m.Sound X t
  perm : m.permCache = .empty
  channelPerm : m.channelPermCache = .empty

/-- Nothing is held about any user, nor any overwrite row. -/
structure NoRows (X : Uid → Table DbMeta.key → Prop) (m : Memory) (t : Tables) : Prop extends NoPerms X m t where
  overwrites : m.overwritesCache = .empty

/-- Nothing is held about the user. -/
structure NoUser (X : Uid → Table DbMeta.key → Prop) (uid : Uid) (m : Memory) (t : Tables) : Prop where
  sound : m.Sound X t
  perm : m.permCache.find? uid = none
  channelPerm : m.channelPermCache.find? uid = none

/-- Nothing is held about the user, nor any overwrite row. -/
structure NoMember (X : Uid → Table DbMeta.key → Prop) (uid : Uid) (m : Memory) (t : Tables) : Prop extends NoUser X uid m t where
  overwrites : m.overwritesCache = .empty

variable {X : Uid → Table DbMeta.key → Prop} {m : Memory} {t : Tables} {stmt : Stmt} {uid : Uid}

theorem Sound.forgetPerms (h : m.Sound X t) :
    NoPerms X { m with permCache := .empty, channelPermCache := .empty } t where
  sound := { h with perm := Memo.sound_empty, channelPerm := by simp }
  perm := rfl
  channelPerm := rfl

theorem Sound.forgetUser (h : m.Sound X t) (uid : Uid) :
    NoUser X uid { m with
      permCache := m.permCache.erase uid
      channelPermCache := m.channelPermCache.erase uid } t where
  sound.owner := h.owner
  sound.perm := h.perm.erase uid
  sound.overwrites := h.overwrites
  sound.layout := h.layout
  sound.channelPerm u c hu := by
    rw [Memo.find?_erase] at hu
    split at hu
    · cases hu
    · exact h.channelPerm u c hu
  perm := Memo.find?_erase_self _ _
  channelPerm := Memo.find?_erase_self _ _

theorem Sound.forgetMember (h : m.Sound X t) (uid : Uid) :
    NoMember X uid { m with
      voicePasses := m.voicePasses.erase uid
      permCache := m.permCache.erase uid
      channelPermCache := m.channelPermCache.erase uid
      overwritesCache := .empty } t where
  sound.owner := h.owner
  sound.perm := h.perm.erase uid
  sound.overwrites := Memo.sound_empty
  sound.layout := h.layout
  sound.channelPerm u c hu := by
    rw [Memo.find?_erase] at hu
    split at hu
    · cases hu
    · refine (h.channelPerm u c hu).congr fun ch _ _ => ?_
      rw [channelPermissions, channelPermissions, hasVoicePass, hasVoicePass, Memo.find?_erase,
        if_neg ‹_›]
  perm := Memo.find?_erase_self _ _
  channelPerm := Memo.find?_erase_self _ _
  overwrites := rfl

theorem NoPerms.preserves
    (h : ∀ t t', stmt t = some t' → t'.serverMeta = t.serverMeta ∧ t'.channels = t.channels ∧
      t'.overwrites = t.overwrites) :
    Preserves (NoPerms X m) stmt := by
  intro t t' hm hs
  obtain ⟨hx, hc, ho⟩ := h t t' hs
  refine { hm with sound := ⟨hx ▸ hm.sound.owner, ?_, ?_, ?_, ?_⟩ }
  · rw [hm.perm]
    exact Memo.sound_empty
  · rw [overwritesOf_congr ho]
    exact hm.sound.overwrites
  · rw [layout_congr hc]
    exact hm.sound.layout
  · simp [hm.channelPerm]

theorem NoRows.preserves
    (h : ∀ t t', stmt t = some t' → t'.serverMeta = t.serverMeta ∧ t'.channels = t.channels) :
    Preserves (NoRows X m) stmt := by
  intro t t' hm hs
  obtain ⟨hx, hc⟩ := h t t' hs
  refine { hm with sound := ⟨hx ▸ hm.sound.owner, ?_, ?_, ?_, ?_⟩ }
  · rw [hm.perm]
    exact Memo.sound_empty
  · rw [hm.overwrites]
    exact Memo.sound_empty
  · rw [layout_congr hc]
    exact hm.sound.layout
  · simp [hm.channelPerm]

end Memory

namespace Tables

/-- The statement bears on no other user: channels and roles stay, and the others' assignments and
    rows. -/
def Concerns (uid : Uid) (stmt : Stmt) : Prop := ∀ t t', stmt t = some t' →
  t'.serverMeta = t.serverMeta ∧ t'.channels = t.channels ∧ t'.roles = t.roles ∧
    ∀ other, other ≠ uid → t'.assignments other = t.assignments other ∧
      ∀ ch, rowsFor other (t'.overwritesOf ch) = rowsFor other (t.overwritesOf ch)

end Tables

namespace Memory

variable {X : Uid → Table DbMeta.key → Prop} {m : Memory} {stmt : Stmt} {uid : Uid}

theorem NoUser.perms_of_concerns {t t' : Tables} (h : Concerns uid stmt) (hm : NoUser X uid m t)
    (hs : stmt t = some t') :
    m.permCache.Sound (t'.permEntry m.ownerCache) ∧ ∀ u c, m.channelPermCache.find? u = some c →
      c.Sound (m.channelPermissions t' u) := by
  obtain ⟨-, hc, hr, ho⟩ := h t t' hs
  constructor
  · refine hm.sound.perm.congr fun u e hu => (permEntry_congr hr (ho u ?_).1).symm
    rintro rfl
    rw [hm.perm] at hu
    cases hu
  · intro u c hu
    have hne : u ≠ uid := by
      rintro rfl
      rw [hm.channelPerm] at hu
      cases hu
    refine (hm.sound.channelPerm u c hu).congr fun ch _ _ => ?_
    exact (channelPermissions_congr hr hc (ho u hne).1 (ho u hne).2).symm

theorem NoUser.preserves (h : Concerns uid stmt)
    (ho : ∀ t t', stmt t = some t' → t'.overwrites = t.overwrites) :
    Preserves (NoUser X uid m) stmt := by
  intro t t' hm hs
  obtain ⟨hp, hcp⟩ := hm.perms_of_concerns h hs
  refine { hm with sound := ⟨(h t t' hs).1 ▸ hm.sound.owner, hp, ?_, ?_, hcp⟩ }
  · rw [overwritesOf_congr (ho t t' hs)]
    exact hm.sound.overwrites
  · rw [layout_congr (h t t' hs).2.1]
    exact hm.sound.layout

theorem NoMember.preserves (h : Concerns uid stmt) : Preserves (NoMember X uid m) stmt := by
  intro t t' hm hs
  obtain ⟨hp, hcp⟩ := hm.perms_of_concerns h hs
  refine { hm with sound := ⟨(h t t' hs).1 ▸ hm.sound.owner, hp, ?_, ?_, hcp⟩ }
  · rw [hm.overwrites]
    exact Memo.sound_empty
  · rw [layout_congr (h t t' hs).2.1]
    exact hm.sound.layout

theorem Sound.preserves
    (h : ∀ t t', stmt t = some t' → (X m.ownerCache t.serverMeta → X m.ownerCache t'.serverMeta) ∧
      t'.channels = t.channels ∧ t'.roles = t.roles ∧ t'.memberRoles = t.memberRoles ∧
      t'.overwrites = t.overwrites) :
    Preserves (Sound X m) stmt := by
  intro t t' hm hs
  obtain ⟨hx, hc, hr, hmr, ho⟩ := h t t' hs
  have ha : ∀ uid, t'.assignments uid = t.assignments uid := fun uid => by
    simp only [assignments, hmr]
  refine ⟨hx hm.owner, ?_, ?_, ?_, fun u c hu => ?_⟩
  · exact hm.perm.congr fun u _ _ => (permEntry_congr hr (ha u)).symm
  · rw [overwritesOf_congr ho]
    exact hm.overwrites
  · rw [layout_congr hc]
    exact hm.layout
  · refine (hm.channelPerm u c hu).congr fun ch _ _ => (channelPermissions_congr hr hc (ha u) ?_).symm
    rw [overwritesOf_congr ho]
    exact fun _ => rfl

end Memory

namespace Tables

variable {uid : Uid}

theorem concerns_insertMember (m : DbMember) : Concerns uid (insertMember m) := by
  intro t t' h
  obtain ⟨members, -, rfl⟩ := Option.map_eq_some_iff.1 h
  exact ⟨rfl, rfl, rfl, fun _ _ => ⟨rfl, fun _ => rfl⟩⟩

theorem concerns_deleteMember : Concerns uid (deleteMember uid) := by
  rintro t _ ⟨⟩
  exact ⟨rfl, rfl, rfl, fun _ _ => ⟨rfl, fun _ => rfl⟩⟩

theorem concerns_upsertBan (b : DbBan) : Concerns uid (upsertBan b) := by
  rintro t _ ⟨⟩
  exact ⟨rfl, rfl, rfl, fun _ _ => ⟨rfl, fun _ => rfl⟩⟩

theorem concerns_deleteMemberRoles : Concerns uid (deleteMemberRoles (·.uid = uid)) := by
  rintro t _ ⟨⟩
  refine ⟨rfl, rfl, rfl, fun other hne => ⟨?_, fun _ => rfl⟩⟩
  simp only [assignments, Table.rows_deleteWhere, filter_filter]
  refine filter_congr fun r _ => ?_
  by_cases hr : r.uid = other <;> simp [hr, hne]

theorem concerns_insertMemberRole (roleId : Int) : Concerns uid (insertMemberRole uid roleId) := by
  rintro t _ ⟨⟩
  refine ⟨rfl, rfl, rfl, fun other hne => ⟨?_, fun _ => rfl⟩⟩
  simp only [assignments, Table.insertOrIgnore]
  split
  · rfl
  · simp [Table.append, Ne.symm hne]

theorem concerns_deleteOverwrites : Concerns uid (deleteOverwrites (memberOverwrite uid)) := by
  rintro t _ ⟨⟩
  refine ⟨rfl, rfl, rfl, fun other hne => ⟨rfl, fun ch => ?_⟩⟩
  simp only [rowsFor, overwritesOf, Table.rows_deleteWhere, filter_filter]
  refine filter_congr fun ow _ => ?_
  -- a row that names `uid` is a member's, and not the other user's
  have hname : toString uid ≠ toString other := fun h => hne (toString_injective h.symm)
  simp only [memberOverwrite]
  generalize toString uid = a at hname
  generalize toString other = b at hname
  by_cases hu : ow.targetId = a <;> by_cases h0 : ow.targetType = 0 <;> simp [hu, hname, h0]

end Tables

namespace CommunityDb

open Memory

/-! ## Roles and members -/

variable {X : Uid → Table DbMeta.key → Prop} {m : Memory}

theorem preserves_shiftRoles (p : Int → Bool) (delta : Int) :
    Preserves (NoPerms X m) (shiftRoles p delta) :=
  NoPerms.preserves (by rintro t _ ⟨⟩; exact ⟨rfl, rfl, rfl⟩)

theorem preserves_insertRole (r : DbRole) : Preserves (NoPerms X m) (insertRole r) :=
  NoPerms.preserves fun t t' h => by
    obtain ⟨roles, -, rfl⟩ := Option.map_eq_some_iff.1 h
    exact ⟨rfl, rfl, rfl⟩

theorem preserves_updateRole (roleId : Int) (f : DbRole → DbRole) (hf : ∀ r, (f r).id = r.id) :
    Preserves (NoPerms X m) (Tables.updateRole roleId f hf) :=
  NoPerms.preserves (by rintro t _ ⟨⟩; exact ⟨rfl, rfl, rfl⟩)

theorem triple_invalidatePermCache :
    Triple (Quiet (Sound X)) invalidatePermCache fun _ => Quiet (NoPerms X) :=
  fun _ hd => ⟨hd.rel.forgetPerms, hd.idle⟩

theorem triple_clearOverwritesCache :
    Triple (Quiet (NoPerms X)) clearOverwritesCache fun _ => Quiet (NoRows X) :=
  fun _ hd => ⟨⟨{ hd.rel with sound := { hd.rel.sound with overwrites := Memo.sound_empty } }, rfl⟩,
    hd.idle⟩

theorem triple_invalidateUserPerms (uid : Uid) :
    Triple (Quiet (Sound X)) (invalidateUserPerms uid) fun _ => Quiet (NoUser X uid) :=
  fun _ hd => ⟨hd.rel.forgetUser uid, hd.idle⟩

theorem triple_forgetUser (uid : Uid) :
    Triple (Quiet (Sound X)) (forgetUser uid) fun _ => Quiet (NoMember X uid) :=
  fun _ hd => ⟨hd.rel.forgetMember uid, hd.idle⟩

theorem keeps_createRole (rawName : Bytes) (color : BitVec 32) (permissions : Permissions)
    (manageEachOther : Bool) :
    Keeps (Quiet (Sound X)) (createRole rawName color permissions manageEachOther) := by
  refine .ite .pure (triple_invalidatePermCache.bind fun _ => ?_)
  refine triple_begin ?_ (.pure fun _ h => h.imp fun _ _ => NoPerms.sound)
  refine (keeps_exec fun m => preserves_shiftRoles _ _).seq fun _ => .get_bind fun d _ => ?_
  refine (keeps_exec fun m => preserves_insertRole _).seq fun _ => .ite (fun _ => ?_) fun _ => ?_
  · exact triple_commit.bind fun _ => .pure fun _ h => h.imp fun _ _ => NoPerms.sound
  · exact triple_rollback.bind fun _ => .pure fun _ h => h.imp fun _ _ => NoPerms.sound

theorem keeps_updateRole (roleId : Int) (rawName : Bytes) (color : BitVec 32)
    (permissions : Permissions) (position : Int) (manageEachOther : Bool) :
    Keeps (Quiet (Sound X)) (updateRole roleId rawName color permissions position manageEachOther) := by
  refine .get_bind fun d _ => ?_
  dsimp only
  cases d.tables.findRole roleId with
  | none => exact Keeps.pure
  | some cur =>
  refine triple_invalidatePermCache.bind fun _ => .ite (fun _ => ?_) fun _ => .ite (fun _ => ?_) ?_
  · exact (keeps_quiet_exec fun m => preserves_updateRole _ _ _).conseq (fun _ => id)
      fun _ _ h => h.imp fun _ _ => NoPerms.sound
  · exact .pure fun _ h => h.imp fun _ _ => NoPerms.sound
  · intro _
    refine (keeps_transact fun stmt hs m => ?_).conseq (fun _ => id)
      fun _ _ h => h.imp fun _ _ => NoPerms.sound
    rcases mem_append.1 hs with hs | hs
    · -- the list move shifts positions, whichever way it goes
      simp only [moveRoles] at hs
      split at hs
      · cases hs
      split at hs <;> obtain rfl := mem_singleton.1 hs <;> exact preserves_shiftRoles _ _
    · obtain rfl := mem_singleton.1 hs
      exact preserves_updateRole _ _ _

theorem keeps_deleteRole (roleId : Int) : Keeps (Quiet (Sound X)) (deleteRole roleId) := by
  refine .get_bind fun d _ => ?_
  cases d.tables.findRole roleId with
  | none => exact Keeps.pure
  | some cur =>
  refine .ite (fun _ => Keeps.pure) fun _ => ?_
  refine triple_invalidatePermCache.bind fun _ => triple_clearOverwritesCache.bind fun _ => ?_
  refine (keeps_transact fun stmt hs m => NoRows.preserves ?_).conseq (fun _ => id)
    fun _ _ h => h.imp fun _ _ hm => hm.sound
  simp only [mem_cons, not_mem_nil, or_false] at hs
  rcases hs with rfl | rfl | rfl | rfl <;> rintro t _ ⟨⟩ <;> exact ⟨rfl, rfl⟩

theorem keeps_setMemberRoles (uid : Uid) (roleIds : List Int) :
    Keeps (Quiet (Sound X)) (setMemberRoles uid roleIds) := by
  refine .get_bind fun d _ => .ite (fun _ => ?_) fun _ => Keeps.pure
  refine (triple_invalidateUserPerms uid).bind fun _ => ?_
  refine (keeps_transact fun stmt hs m => ?_).conseq (fun _ => id)
    fun _ _ h => h.imp fun _ _ hm => hm.sound
  rcases mem_cons.1 hs with rfl | hs
  · exact NoUser.preserves concerns_deleteMemberRoles (by rintro t _ ⟨⟩; rfl)
  · obtain ⟨id, -, rfl⟩ := mem_map.1 hs
    exact NoUser.preserves (concerns_insertMemberRole id) (by rintro t _ ⟨⟩; rfl)

theorem keeps_addMember (uid : Uid) (username : String) (nameIat now : Int) :
    Keeps (Quiet (Sound X)) (addMember uid username nameIat now) := by
  refine .ite .pure ((triple_invalidateUserPerms uid).bind fun _ => ?_)
  refine (keeps_quiet_exec fun m => ?_).conseq (fun _ => id) fun _ _ h => h.imp fun _ _ hm => hm.sound
  refine NoUser.preserves (concerns_insertMember _) fun t t' h => ?_
  obtain ⟨members, -, rfl⟩ := Option.map_eq_some_iff.1 h
  rfl

theorem keeps_removeMember (uid : Uid) : Keeps (Quiet (Sound X)) (removeMember uid) := by
  refine (triple_forgetUser uid).bind fun _ => ?_
  refine triple_begin ?_ (.pure fun _ h => h.imp fun _ _ hm => hm.sound)
  refine (keeps_exec fun m => NoMember.preserves concerns_deleteOverwrites).seq fun _ => ?_
  refine (keeps_exec fun m => NoMember.preserves concerns_deleteMemberRoles).seq fun _ => ?_
  refine .get_bind fun d _ => ?_
  refine (keeps_exec fun m => NoMember.preserves concerns_deleteMember).seq fun _ =>
    .ite (fun _ => ?_) fun _ => ?_
  · exact triple_commit.bind fun _ => .pure fun _ h => h.imp fun _ _ hm => hm.sound
  · exact triple_rollback.bind fun _ => .pure fun _ h => h.imp fun _ _ hm => hm.sound

theorem keeps_addBan (uid : Uid) (username : Bytes) (bannedByUid : Uid) (bannedBy reason : Bytes)
    (expiresAt now : Int) :
    Keeps (Quiet (Sound X)) (addBan uid username bannedByUid bannedBy reason expiresAt now) := by
  refine .ite .pure ((triple_forgetUser uid).bind fun _ => ?_)
  refine triple_begin ?_ (.pure fun _ h => h.imp fun _ _ hm => hm.sound)
  refine (keeps_exec fun m => NoMember.preserves concerns_deleteOverwrites).seq fun _ => ?_
  refine (keeps_exec fun m => NoMember.preserves concerns_deleteMemberRoles).seq fun _ => ?_
  refine (keeps_exec fun m => NoMember.preserves concerns_deleteMember).seq fun _ => ?_
  refine (keeps_exec fun m => NoMember.preserves (concerns_upsertBan _)).seq fun ok => ?_
  exact triple_finish.bind fun _ => .pure fun _ h => h.imp fun _ _ hm => hm.sound

/-! ## The owner -/

theorem setOwner_sound {t : Tables} (hm : m.Sound X t) {owner : Uid} (hx : X owner t.serverMeta) :
    ({ m with ownerCache := owner, permCache := .empty, channelPermCache := .empty } :
      Memory).Sound X t :=
  { hm with
    owner := hx
    perm := Memo.sound_empty
    channelPerm := by simp }

section Owner

variable (hX : ∀ owner serverMeta, X owner serverMeta)
include hX

theorem keeps_transferOwnership (newOwnerUid : Uid) :
    Keeps (Quiet (Sound X)) (transferOwnership newOwnerUid) := by
  refine .get_bind fun d _ => .ite (fun _ => ?_) fun _ => Keeps.pure
  refine Triple.bind (Q := fun _ => Quiet (Sound X)) ?_ fun _ => Keeps.pure
  refine (keeps_quiet_exec fun m => Sound.preserves ?_).seq fun _ => ?_
  · rintro t _ ⟨⟩
    exact ⟨fun _ => hX _ _, rfl, rfl, rfl, rfl⟩
  · exact fun d hd => ⟨setOwner_sound hd.rel (hX _ _), hd.idle⟩

omit hX in
theorem preserves_claimRewrites {uid placeholder : Uid} {stmt : Stmt}
    (hs : stmt ∈ claimRewrites uid placeholder) : Preserves (NoRows X m) stmt := by
  refine NoRows.preserves ?_
  simp only [claimRewrites, mem_cons, not_mem_nil, or_false] at hs
  casesm* _ ∨ _ <;> subst stmt <;> rintro t _ ⟨⟩ <;> exact ⟨rfl, rfl⟩

theorem keeps_setOwner (value : String) :
    Keeps (Inv (NoRows X)) (setMeta "owner_uid" value) := by
  refine (keeps_exec fun m t t' hm hs => ?_).seq fun _ d hd => ?_
  · refine { hm with sound := Sound.preserves ?_ t t' hm.sound hs }
    rintro t _ ⟨⟩
    exact ⟨fun _ => hX _ _, rfl, rfl, rfl, rfl⟩
  · exact ⟨{ hd.1 with sound := setOwner_sound hd.1.sound (hX _ _), perm := rfl, channelPerm := rfl },
      fun t ht => { hd.2 t ht with
        sound := setOwner_sound (hd.2 t ht).sound (hX _ _), perm := rfl, channelPerm := rfl }⟩

theorem keeps_claimLegacy (uid : Uid) (username : String) (now : Int) :
    Keeps (Quiet (Sound X)) (claimLegacy uid username now) := by
  refine .get_bind fun d _ => .ite (fun _ => Keeps.pure) fun _ => .ite (fun _ => ?_) fun _ => ?_
  · refine (keeps_quiet_exec fun m => Sound.preserves ?_).seq fun _ => Keeps.pure
    rintro t _ ⟨⟩
    exact ⟨id, rfl, rfl, rfl, rfl⟩
  dsimp only
  cases d.tables.legacyClaims.find? username with
  | none => exact Keeps.pure
  | some c =>
  refine .ite (fun _ => Keeps.pure) fun _ => ?_
  refine triple_invalidatePermCache.bind fun _ => triple_clearOverwritesCache.bind fun _ => ?_
  refine triple_begin ?_ (.pure fun _ h => h.imp fun _ _ hm => hm.sound)
  refine (keeps_execAll fun stmt hs m => preserves_claimRewrites hs).seq fun ok => ?_
  -- whatever became of the statements, the transaction ends and nothing is held
  have hend : Triple (Inv (NoRows X)) (do
      sql (finish ok)
      if ok then return some c.2
      else
        modify fun d => { d with
          ownerCache := (stoll (d.tables.getMeta "owner_uid")).getD d.ownerCache }
        invalidatePermCache
        return none) fun _ => Quiet (Sound X) := by
    refine triple_finish.bind fun _ => .ite (fun _ => ?_) fun _ => ?_
    · exact .pure fun _ h => h.imp fun _ _ hm => hm.sound
    · exact fun d hd => ⟨setOwner_sound hd.rel.sound (hX _ _), hd.idle⟩
  exact .get_bind fun d _ => .ite (fun _ => (keeps_setOwner hX _).seq fun _ => hend) fun _ => hend

end Owner

end CommunityDb
end Decibell
