import Decibell.Community.OverwriteWriters

/-!
# Overwrite requests neither lock out nor escalate

What the two requests about a channel's permissions do, from a database at rest whose rows and flags
are in order (`Settled`), whatever statements fail.
-/

namespace Decibell

open Lib Lib.Conn Tables ChannelLayout List

namespace Tables

variable {owner : Uid} {passes : Memo Uid (List String)} {t t' : Tables} {id : String}

/-- What a user may do in a channel. -/
def permsIn (t : Tables) (owner : Uid) (passes : Memo Uid (List String)) (uid : Uid) (id : String) :
    Permissions :=
  if t.layout.parentOf.find? id = none then 0
  else t.channelPermissions owner (((passes.find? uid).getD []).contains id) uid id

theorem permsIn_congr {uid : Uid} (hp : SamePeople t t')
    (hparent : t'.layout.parentOf.find? id = t.layout.parentOf.find? id)
    (hs : t'.layout.source id = t.layout.source id)
    (hr : t'.overwritesOf (t.layout.source id) = t.overwritesOf (t.layout.source id)) :
    t'.permsIn owner passes uid id = t.permsIn owner passes uid id := by
  have ha : t'.assignments uid = t.assignments uid := by simp only [assignments, hp.memberRoles]
  have he : t'.everyoneId = t.everyoneId := by simp only [everyoneId, hp.roles]
  have hi : t'.roleIdsOf uid = t.roleIdsOf uid := congrArg (List.map _) ha
  simp only [permsIn, channelPermissions, hparent, permEntry_congr hp.roles ha, he, hi, hs, hr]

end Tables

namespace CommunityDb

open Memory

variable {owner : Uid} {passes : Memo Uid (List String)} {t t' : Tables} {os os' : List Outcome}
  {α β : Type} {Q : β → CommunityDb → Prop} {now : Int} {s : Session} {id : String}

/-! ## Queries -/

theorem on_getChannel : Triple (On owner passes t os) (getChannel id)
    fun c d => c = t.channels.find? id ∧ On owner passes t os d := by
  refine on_answer fun d hd => ?_
  have htables : d.tables = t := hd.tables
  rw [← htables]
  exact Answers.gets hd.quiet fun d => d.tables.channels.find? id

theorem on_channelPermissions {uid : Uid} : Triple (On owner passes t os) (channelPermissions uid id)
    fun p d => p = t.permsIn owner passes uid id ∧ On owner passes t os d := by
  refine on_answer fun d hd => ?_
  have h := channelPermissions_spec hd.quiet uid id
  have htables : d.tables = t := hd.tables
  rw [Memory.channelPermissions, Memory.hasVoicePass, hd.memory.owner, hd.memory.passes,
    htables] at h
  exact h

theorem on_parentCategory : Triple (On owner passes t os) (parentCategory id)
    fun k d => k = t.layout.parentCategory id ∧ On owner passes t os d := by
  refine on_answer fun d hd => ?_
  have htables : d.tables = t := hd.tables
  rw [← htables]
  exact (getLayout_spec hd.quiet).bind fun _ hd' _ => .pure hd' _

theorem on_listOverwrites : Triple (On owner passes t os) (listOverwrites id)
    fun rows d => rows = t.overwritesOf (t.layout.source id) ∧ On owner passes t os d := by
  refine on_answer fun d hd => ?_
  have htables : d.tables = t := hd.tables
  rw [← htables]
  exact listOverwrites_spec hd.quiet id

theorem on_memberLevel {uid : Uid} : Triple (On owner passes t os) (memberLevel uid)
    fun l d => l = (t.permEntry owner uid).level ∧ On owner passes t os d := by
  refine on_answer fun d hd => ?_
  have htables : d.tables = t := hd.tables
  have hd' := memberLevel_spec hd.quiet uid
  rwa [htables, hd.memory.owner] at hd'

theorem on_canView {uid : Uid} : Keeps (On owner passes t os) (canView uid id) :=
  on_channelPermissions.bind_eq Keeps.pure

theorem on_check {ctx : AuthCtx} :
    Keeps (On owner passes t os) (check now .manageOverwrites ctx) := by
  have hrule : Keeps (On owner passes t os) (checkAction ctx .manageOverwrites) :=
    on_channelPermissions.bind_eq Keeps.pure
  refine Keeps.bind ?_ fun until' => .ite hrule .pure
  refine Keeps.bind (.get_bind fun _ _ => Keeps.pure) fun m => ?_
  cases m with
  | none => exact .pure
  | some m => exact .pure

/-! ## Syncing a channel -/

/-- Nothing is other than before, or the channel follows its category with only bits of `perms`
    other; `r` is why it was turned down. -/
structure SyncTried (perms : String → Permissions) (id : String) (t : Tables) (os : List Outcome)
    (r : Option String) (t' : Tables) (os' : List Outcome) : Prop where
  settled : Settled t'
  people : SamePeople t t'
  fails : NoneFails os → NoneFails os'
  change : Permitted perms [] t t' ∨ Permitted perms [id] t t' ∧ t.Unsynced id ∧
    Follows t'.ordered id (t.layout.parentCategory id) ∧
      (r = none ∨ r = some lockedOut ∧ ¬NoneFails os)
  done : r = none → NoneFails os → Follows t'.ordered id (t.layout.parentCategory id)

theorem SyncTried.refused (ht : Settled t) (perms : String → Permissions) (why : String)
    (hos : NoneFails os → NoneFails os') : SyncTried perms id t os (some why) t os' :=
  ⟨ht, .refl t, hos, .inl (.refl perms t), fun h => absurd h (Option.some_ne_none _)⟩

/-- What a request leaves the database with. -/
def Leaving (owner : Uid) (passes : Memo Uid (List String)) (P : α → Tables → List Outcome → Prop)
    (a : α) (d : CommunityDb) : Prop :=
  ∃ t' os', P a t' os' ∧ On owner passes t' os' d

/-- The channel follows its category, or the statements for that failed. -/
structure Syncing (perms : String → Permissions) (id k : String) (t : Tables) (os : List Outcome)
    (t' : Tables) (os' : List Outcome) : Prop where
  settled : Settled t'
  people : SamePeople t t'
  fails : NoneFails os → NoneFails os'
  change : Permitted perms [id] t t' ∧ Follows t'.ordered id k ∨ Permitted perms [] t t' ∧ ¬NoneFails os
  unflag : t'.channels.rows.map (flag id false) = t.channels.rows
  other : ∀ j, j ≠ id → t'.overwritesOf j = t.overwritesOf j

section Syncing

variable {perms : String → Permissions} {k : String} {t₁ t₂ : Tables} {os₁ os₂ : List Outcome}

theorem syncing_of_left {ok : Bool} (ht : Settled t) (hs : Syncable t id k) (hu : t.Unsynced id)
    (hheld : Perms.bits (differingBits (t.overwritesOf id) (t.overwritesOf k)) ⊆ Perms.bits (perms id))
    (h : Left (fun t' => Wrote id [] true t t' ∧ SamePeople t t') t os ok t₁ os₁) :
    Syncing perms id k t os t₁ os₁ := by
  obtain ⟨hos, ⟨-, hw, hp⟩ | ⟨rfl, hno⟩⟩ := h
  · have hf := hw.follows hs
    exact ⟨ht.synced hs hw, hp, hos, .inl ⟨hw.permitted hu hf hs.ne hheld, hf⟩, hw.unflag hu, hw.other⟩
  · exact ⟨ht, .refl _, hos, .inr ⟨.refl perms _, hno⟩, map_flag_of_forall hu, fun _ _ => rfl⟩

theorem Syncing.logged (h : Syncing perms id k t os t₁ os₁) (hu : t.Unsynced id)
    (hk : t.layout.parentCategory id = k) (hlog : Logged t₁ t₂) :
    SyncTried perms id t os none t₂ os₁.tail := by
  refine ⟨hlog.settled h.settled, h.people.trans hlog.toSamePeople, fun hos => (h.fails hos).tail, ?_, ?_⟩
  · rcases h.change with ⟨hc, hf⟩ | ⟨hc, -⟩
    · exact .inr ⟨hlog.permitted hc, hu, hk.symm ▸ hlog.follows hf, .inl rfl⟩
    · exact .inl (hlog.permitted hc)
  · rintro - hos
    rcases h.change with ⟨-, hf⟩ | ⟨-, hno⟩
    · exact hk.symm ▸ hlog.follows hf
    · exact absurd hos hno

theorem Syncing.restored {ok : Bool} (h : Syncing perms id k t os t₁ os₁) (ht : Settled t)
    (hid : id ∈ t.channels.keys) (hu : t.Unsynced id) (hk : t.layout.parentCategory id = k)
    (h' : Left (fun t' => Wrote id (t.overwritesOf id) false t₁ t' ∧ SamePeople t₁ t')
      t₁ os₁ ok t₂ os₂) :
    SyncTried perms id t os (some lockedOut) t₂ os₂ := by
  have hkeys : t₁.channels.keys = t.channels.keys := by
    rw [Table.keys, Table.keys, ← h.unflag, map_map]
    exact map_congr_left fun c _ => ((flags_flag id false).id c).symm
  obtain ⟨hos, ⟨-, hw, hp⟩ | ⟨rfl, hno⟩⟩ := h'
  · have hrows : ∀ ow ∈ t.overwritesOf id, ProperRow ow := fun ow how =>
      ht.proper ow (mem_filter.1 how).1
    exact ⟨h.settled.restored (hkeys ▸ hid) hrows hw, h.people.trans hp, fun hos' => hos (h.fails hos'),
      .inl (Wrote.restore h.unflag h.other hw), fun h => absurd h (Option.some_ne_none _)⟩
  · refine ⟨h.settled, h.people, fun hos' => hos (h.fails hos'), ?_,
      fun h => absurd h (Option.some_ne_none _)⟩
    rcases h.change with ⟨hc, hf⟩ | ⟨hc, -⟩
    · exact .inr ⟨hc, hu, hk.symm ▸ hf, .inr ⟨rfl, fun hos' => hno (h.fails hos')⟩⟩
    · exact .inl hc

end Syncing

theorem on_syncChannelWithCategory (ht : Settled t) {perms : String → Permissions}
    (hperms : t.permsIn owner passes s.uid id = perms id) (expected : String) :
    Triple (On owner passes t os) (syncChannelWithCategory now s id expected)
      (Leaving owner passes (SyncTried perms id t os)) := by
  have hrefuse : ∀ why, Triple (On owner passes t os) (pure (some why))
      (Leaving owner passes (SyncTried perms id t os)) := fun why d hd =>
    ⟨t, os, .refused ht perms why fun h => h, hd⟩
  refine on_getChannel.bind_eq ?_
  cases hfind : t.channels.find? id with
  | none => exact hrefuse _
  | some ch =>
  obtain ⟨hch, rfl⟩ := Table.find?_eq_some.1 hfind
  have hid : ch.id ∈ t.channels.keys := mem_map_of_mem hch
  refine on_check.seq fun auth => .ite (fun _ => hrefuse _) fun _ => on_parentCategory.bind_eq ?_
  refine .ite (fun _ => hrefuse _) fun hcat => .ite (fun _ => hrefuse _) fun _ => ?_
  refine on_getChannel.bind_eq (.ite (fun hsync => ?_) fun _ => hrefuse _)
  have hs := syncable_of_found hid (not_or.1 hcat).2 hsync
  generalize hk : t.layout.parentCategory ch.id = k at hs
  refine .ite (fun hsynced => .pure fun d hd => ?_) fun hunsynced => ?_
  · -- a synced channel follows the category it is under already
    obtain ⟨parent, hf⟩ := ht.sync.follows ch hch hsynced
    refine ⟨t, os, ⟨ht, .refl t, fun h => h, .inl (.refl perms t), fun _ _ => ?_⟩, hd⟩
    rwa [parentCategory_of_follows hf]
  have hu := unsynced_of_row hch hunsynced
  refine on_listOverwrites.bind_eq (on_channelPermissions.bind_eq (on_listOverwrites.bind_eq ?_))
  rw [source_of_unsynced hu, hs.source ht.sync]
  refine .ite (fun _ => hrefuse _) fun hheld => ?_
  have hheld : Perms.bits (differingBits (t.overwritesOf ch.id) (t.overwritesOf k)) ⊆
      Perms.bits (perms ch.id) := by
    rw [← hperms]
    exact Perms.bits_subset_iff.1 (not_not.1 hheld)
  refine Triple.bind (on_syncChannelPermissions (hk.symm ▸ hs.named) (hk.symm ▸ hs.categorySyncOf))
    fun ok => .of_exists fun t₁ => .of_exists fun os₁ => .of_and fun hleft => ?_
  have hsyncing := syncing_of_left ht hs hu hheld hleft
  refine .ite (fun _ => ?_) fun hok => ?_
  · refine on_canView.seq fun sees => .ite (fun _ => ?_) fun _ => ?_
    · exact (on_addAudit _ _ _ _ _ _ _).bind fun _ => .of_exists fun t₂ => .of_and fun hlog =>
        .pure fun d hd => ⟨t₂, _, hsyncing.logged hu hk hlog, hd⟩
    · exact on_restoreChannelOverwrites.bind fun ok => .of_exists fun t₂ => .of_exists fun os₂ =>
        .of_and fun hleft => .pure fun d hd => ⟨t₂, os₂, hsyncing.restored ht hid hu hk hleft, hd⟩
  · refine .pure fun d hd => ⟨t₁, os₁, ?_, hd⟩
    obtain ⟨hos, ⟨htrue, -⟩ | ⟨rfl, -⟩⟩ := hleft
    · exact absurd htrue hok
    · exact .refused ht perms _ hos

/-! ## Setting a row -/

/-- A request about one channel: granted, only bits of `perms` changed; turned down, all is as
    before, unless undoing a lock-out failed. -/
structure Tried (perms : String → Permissions) (id : String) (t : Tables) (os : List Outcome)
    (r : ChannelActionRes × List ChannelPush) (t' : Tables) : Prop where
  settled : Settled t'
  granted : r.1.success = true → Permitted perms [id] t t'
  refused : r.1.success = false →
    SameOverwrites t t' ∨ r.1.message = utf8 lockedOut ∧ ¬NoneFails os

theorem Tried.of_refused (ht : Settled t) (perms : String → Permissions) (id action why : String) :
    Tried perms id t os (refuseChannel action why) t :=
  ⟨ht, fun h => absurd h Bool.false_ne_true, fun _ => .inl (.refl t)⟩

theorem mask_row (ow : OverwriteSetReq) (targetType : Int) (targetId : String) :
    maskOverwrite (ow.row targetType targetId) = ow.row targetType targetId := by
  have hand : ∀ a b : Permissions, a &&& b &&& b = a &&& b := fun a b => by
    rw [BitVec.and_assoc, BitVec.and_self]
  have hallow : ∀ a k n : Permissions, a &&& k &&& n &&& k &&& n = a &&& k &&& n := fun a k n => by
    rw [BitVec.and_assoc (a &&& k) n k, BitVec.and_comm n k, ← BitVec.and_assoc, hand, hand]
  simp only [maskOverwrite, OverwriteSetReq.row, hand, hallow]

theorem on_overwriteTarget (ow : OverwriteSetReq) :
    Triple (On owner passes t os) (overwriteTarget ow) fun e d =>
      (∀ row m, e = .ok (row, m) → row.channelId = ow.channelId ∧ maskOverwrite row = row) ∧
        On owner passes t os d := by
  rw [overwriteTarget]
  cases ow.targetType with
  | role =>
    dsimp only
    cases stollAll ow.targetId with
    | none => exact .pure fun _ hd => ⟨fun _ _ h => (by cases h), hd⟩
    | some rid =>
      refine .pure fun d hd => ⟨fun row m h => ?_, hd⟩
      cases h
      exact ⟨rfl, mask_row ow _ _⟩
  | member =>
    have hmember : Keeps (On owner passes t os) (resolveMember ow.targetUid) :=
      .ite .pure (.get_bind fun _ _ => Keeps.pure)
    refine hmember.seq fun m => ?_
    cases m with
    | none => exact .pure fun _ hd => ⟨fun _ _ h => (by cases h), hd⟩
    | some m =>
      refine .pure fun d hd => ⟨fun row m h => ?_, hd⟩
      cases h
      exact ⟨rfl, mask_row ow _ _⟩

theorem on_refuseRole (user : Uid) (row : DbOverwrite) :
    Keeps (On owner passes t os) (refuseRole user row) := by
  rw [refuseRole]
  refine .ite ?_ .pure
  cases stoll row.targetId with
  | none => exact .pure
  | some rid =>
    refine .get_bind fun d hd => ?_
    cases d.tables.findRole rid with
    | none => exact Keeps.pure
    | some role =>
      exact Keeps.ite .pure (on_memberLevel.bind_eq (Keeps.ite .pure .pure))

theorem on_wasSynced (ht : SyncInv t) {ch : DbChannel} (hch : ch ∈ t.channels.rows) :
    Triple (On owner passes t os) (wasSynced ch)
      fun b d => b = ch.permSynced ∧ On owner passes t os d := by
  refine .ite (fun h => on_parentCategory.bind_eq (.pure fun d hd => ⟨?_, hd⟩)) fun h =>
    .pure fun d hd => ⟨?_, hd⟩
  · obtain ⟨parent, hf⟩ := ht.follows ch hch h.2
    rw [parentCategory_of_follows hf, h.2, decide_eq_true hf.named]
  · rw [not_and] at h
    by_contra hne
    have hs : ch.permSynced = true := by simpa using Ne.symm hne
    refine h (fun htype => ?_) hs
    rw [ht.unsynced_of_category hch htype ch hch rfl] at hs
    cases hs

theorem on_overwriteGranted (ch : DbChannel) (row : DbOverwrite) (member : Option DbMember) :
    Triple (On owner passes t os) (overwriteGranted now s ch row member) fun r d =>
      r.1.success = true ∧ ∃ t', Logged t t' ∧ On owner passes t' os.tail d := by
  refine on_getChannel.bind_eq (on_channelPermissions.bind_eq ((on_addAudit _ _ _ _ _ _ _).bind
    fun _ => .of_exists fun t' => .of_and fun hlog => ?_))
  have hfollowers : ∀ k, Keeps (On owner passes t' os.tail) (syncedChildren k) := fun k =>
    on_getLayout.bind_eq Keeps.pure
  refine .ite (fun _ => (hfollowers _).seq fun _ => ?_) fun _ => Keeps.pure.seq fun _ => ?_
  · exact .pure fun d hd => ⟨rfl, t', hlog, hd⟩
  · exact .pure fun d hd => ⟨rfl, t', hlog, hd⟩

section Setting

variable {perms : String → Permissions} {row : DbOverwrite} {ch : DbChannel} {t₁ t₂ : Tables}
  {os₁ os₂ : List Outcome}

/-- The row is set, or the statements that were to set it failed. -/
structure Setting (perms : String → Permissions) (row : DbOverwrite) (t : Tables) (os : List Outcome)
    (t' : Tables) (os' : List Outcome) : Prop where
  settled : Settled t'
  people : SamePeople t t'
  fails : NoneFails os → NoneFails os'
  keys : t'.channels.keys = t.channels.keys
  syncable : ∀ k, Syncable t row.channelId k → Syncable t' row.channelId k
  change : Sets row t t' ∧ Permitted perms [row.channelId] t t' ∨ t' = t ∧ ¬NoneFails os

theorem setting_of_left {ok : Bool} (ht : Settled t) (hid : row.channelId ∈ t.channels.keys)
    (hmask : maskOverwrite row = row)
    (hheld : Perms.bits (changedBits (t.bitsIn row.channelId row.targetType row.targetId)
      (row.allow, row.deny)) ⊆ Perms.bits (perms row.channelId))
    (h : Left (Sets row t) t os ok t₁ os₁) : Setting perms row t os t₁ os₁ := by
  obtain ⟨hos, ⟨-, hs⟩ | ⟨rfl, hno⟩⟩ := h
  · exact ⟨ht.set hid hmask hs, hs.people, hos, (flags_flag _ _).keys hs.flags,
      fun k hk => hk.of_flags (reflags_flag _ _) hs.flags, .inl ⟨hs, hs.permitted hheld⟩⟩
  · exact ⟨ht, .refl _, hos, rfl, fun _ hk => hk, .inr ⟨rfl, hno⟩⟩

theorem Setting.logged (h : Setting perms row t os t₁ os₁) (hlog : Logged t₁ t₂)
    {r : ChannelActionRes × List ChannelPush} (hr : r.1.success = true) :
    Tried perms row.channelId t os r t₂ := by
  refine ⟨hlog.settled h.settled, fun _ => ?_, fun hno => absurd (hr.symm.trans hno) (by decide)⟩
  rcases h.change with ⟨-, hc⟩ | ⟨rfl, -⟩
  · exact hlog.permitted hc
  · exact (hlog.permitted (.refl perms t₁)).of_nil _

theorem Setting.resynced {ok : Bool} {k : String} (h : Setting perms row t os t₁ os₁) (ht : Settled t)
    (hf : Follows t.ordered row.channelId k) (hs : Syncable t₁ row.channelId k)
    (h' : Left (fun t' => Wrote row.channelId [] true t₁ t' ∧ SamePeople t₁ t') t₁ os₁ ok t₂ os₂)
    (action : String) : Tried perms row.channelId t os (refuseChannel action lockedOut) t₂ := by
  have hsettled : Settled t₂ := by
    rcases h'.2 with ⟨-, hw, -⟩ | ⟨rfl, -⟩
    · exact h.settled.synced hs hw
    · exact h.settled
  refine ⟨hsettled, fun h => absurd h Bool.false_ne_true, fun _ => ?_⟩
  rcases h.change with ⟨hset, -⟩ | ⟨rfl, hno⟩
  · rcases h'.2 with ⟨-, hw, -⟩ | ⟨rfl, hno⟩
    · exact .inl (hset.resync ht.sync hf hw)
    · exact .inr ⟨rfl, fun hos => hno (h.fails hos)⟩
  · exact .inr ⟨rfl, hno⟩

theorem Setting.reverted {ok : Bool} (h : Setting perms row t os t₁ os₁) (ht : Settled t)
    (hu : t.Unsynced row.channelId) (hid : row.channelId ∈ t.channels.keys)
    {cur : Permissions × Permissions}
    (hcur : t.bitsIn row.channelId row.targetType row.targetId = cur)
    (hmask : maskOverwrite { row with allow := cur.1, deny := cur.2 } =
      { row with allow := cur.1, deny := cur.2 })
    (h' : Left (Sets { row with allow := cur.1, deny := cur.2 } t₁) t₁ os₁ ok t₂ os₂) (action : String) :
    Tried perms row.channelId t os (refuseChannel action lockedOut) t₂ := by
  have hid₁ : row.channelId ∈ t₁.channels.keys := h.keys ▸ hid
  have hsettled : Settled t₂ := by
    rcases h'.2 with ⟨-, hs⟩ | ⟨rfl, -⟩
    · refine h.settled.set ?_ hmask hs
      exact hid₁
    · exact h.settled
  refine ⟨hsettled, fun h => absurd h Bool.false_ne_true, fun _ => ?_⟩
  rcases h.change with ⟨hset, -⟩ | ⟨rfl, hno⟩
  · rcases h'.2 with ⟨-, hs⟩ | ⟨rfl, hno⟩
    · exact .inl (hset.revert hu ht.proper hcur hs)
    · exact .inr ⟨rfl, fun hos => hno (h.fails hos)⟩
  · exact .inr ⟨rfl, hno⟩

end Setting

/-- What a request about one channel leaves. -/
def Trying (owner : Uid) (passes : Memo Uid (List String)) (perms : String → Permissions) (id : String)
    (t : Tables) (os : List Outcome) (r : ChannelActionRes × List ChannelPush) (d : CommunityDb) : Prop :=
  ∃ t' os', Tried perms id t os r t' ∧ On owner passes t' os' d

theorem targetExists_congr (h : SamePeople t t') (ow : DbOverwrite) :
    targetExists t' ow = targetExists t ow := by
  simp only [targetExists, findRole, isMember, h.roles, h.members]

/-- A row is set, and who asked looks whether they still see the channel. -/
theorem on_setting (ht : Settled t) {ch : DbChannel} (hch : ch ∈ t.channels.rows) {row : DbOverwrite}
    (hrow : row.channelId = ch.id) (hmask : maskOverwrite row = row) (member : Option DbMember)
    (hheld : Perms.bits (changedBits (t.bitsIn row.channelId row.targetType row.targetId)
      (row.allow, row.deny)) ⊆ Perms.bits (t.permsIn owner passes s.uid row.channelId)) :
    Triple (On owner passes t os) (do
      let synced ← wasSynced ch
      if ← setOverwrite row then
        if ← canView s.uid row.channelId then overwriteGranted now s ch row member
        else
          if synced then
            let _ ← syncChannelPermissions row.channelId
          else
            let cur := t.bitsIn row.channelId row.targetType row.targetId
            let _ ← setOverwrite { row with allow := cur.1, deny := cur.2 }
          return refuseChannel "overwrite" lockedOut
      else return refuseChannel "overwrite" "Failed to save overwrite.")
      (Trying owner passes (t.permsIn owner passes s.uid) row.channelId t os) := by
  have hid : row.channelId ∈ t.channels.keys := hrow ▸ mem_map_of_mem hch
  refine (on_wasSynced ht.sync hch).bind_eq ?_
  cases htarget : targetExists t row with
  | false =>
    refine (on_setOverwrite_refused htarget).bind_eq ?_
    exact .pure fun d hd => ⟨t, os, .of_refused ht _ _ _ _, hd⟩
  | true =>
  refine Triple.bind (on_setOverwrite ht.sync hch hrow hmask htarget) fun ok =>
    .of_exists fun t₁ => .of_exists fun os₁ => .of_and fun hleft => ?_
  have hsetting := setting_of_left ht hid hmask hheld hleft
  refine .ite (fun _ => on_canView.seq fun sees => .ite (fun _ => ?_) fun _ => ?_) fun hno => ?_
  · exact (on_overwriteGranted ch row member).conseq (fun _ h => h) fun r d hr =>
      hr.2.imp fun t₂ h₂ => ⟨_, hsetting.logged h₂.1 hr.1, h₂.2⟩
  · refine .ite (fun hsynced => ?_) fun hunsynced => ?_
    · obtain ⟨k, hf⟩ := ht.sync.follows ch hch hsynced
      rw [← hrow] at hf
      have hs := hsetting.syncable k (.of_follows hf)
      refine Triple.bind (on_syncChannelPermissions (hs.parentCategory.symm ▸ hs.named)
        (hs.parentCategory.symm ▸ hs.categorySyncOf)) fun ok => .of_exists fun t₂ => .of_exists fun os₂ =>
          .of_and fun hleft => .pure fun d hd => ⟨t₂, os₂, hsetting.resynced ht hf hs hleft _, hd⟩
    · have hu := unsynced_of_row hch hunsynced
      rw [← hrow] at hu
      obtain ⟨ch₁, hch₁, hid₁⟩ := mem_map.1 (hsetting.keys ▸ hid)
      have hmask' := mask_currentBits ht.proper row.channelId row
      refine Triple.bind (on_setOverwrite hsetting.settled.sync hch₁ hid₁.symm hmask'
        ((targetExists_congr hsetting.people _).trans htarget)) fun ok => .of_exists fun t₂ =>
          .of_exists fun os₂ => .of_and fun hleft => .pure fun d hd =>
            ⟨t₂, os₂, hsetting.reverted ht hu hid rfl hmask' hleft _, hd⟩
  · refine .pure fun d hd => ⟨t₁, os₁, ?_, hd⟩
    obtain ⟨-, ⟨htrue, -⟩ | ⟨rfl, -⟩⟩ := hleft
    · exact absurd htrue hno
    · exact .of_refused ht _ _ _ _

theorem on_overwriteSet (ht : Settled t) (ow : OverwriteSetReq) :
    Triple (On owner passes t os) (overwriteSet now s ow)
      (Trying owner passes (t.permsIn owner passes s.uid) ow.channelId t os) := by
  have hrefuse : ∀ why, Triple (On owner passes t os) (pure (refuseChannel "overwrite" why))
      (Trying owner passes (t.permsIn owner passes s.uid) ow.channelId t os) := fun why d hd =>
    ⟨t, os, .of_refused ht _ _ _ why, hd⟩
  refine on_getChannel.bind_eq ?_
  cases hfind : t.channels.find? ow.channelId with
  | none => exact hrefuse _
  | some ch =>
  obtain ⟨hch, hid⟩ := Table.find?_eq_some.1 hfind
  refine on_check.seq fun auth => .ite (fun _ => hrefuse _) fun _ => ?_
  refine (on_overwriteTarget ow).bind fun e => .of_and fun hrow => ?_
  rcases e with why | ⟨row, member⟩
  · exact hrefuse _
  obtain ⟨hrid, hmask⟩ := hrow row member rfl
  rw [← hrid] at hid ⊢
  refine on_channelPermissions.bind_eq (on_listOverwrites.bind_eq (.ite (fun _ => hrid ▸ hrefuse _)
    fun hheld => (on_refuseRole _ _).seq fun why => ?_))
  cases why with
  | some why => exact hrid ▸ hrefuse why
  | none => exact on_setting ht hch hid.symm hmask member (Perms.bits_subset_iff.1 (not_not.1 hheld))

/-! ## Syncing the channels of a category -/

section Category

variable {perms : String → Permissions} {category : String} {todo : List String} {p : SyncProgress}
  {r : Option String}

/-- The channels under a category, in display order. -/
def childrenOf (t : Tables) (category : String) : List String :=
  (t.ordered.map DbChannel.id).filter fun id => t.layout.parentOf.find? id = some category

/-- A category's channels sync, `todo` not yet: some follow it anew, with only bits of `perms`
    other, and nothing else changed. -/
structure SyncingAll (perms : String → Permissions) (category : String) (t : Tables)
    (os : List Outcome) (todo : List String) (p : SyncProgress) (t' : Tables) (os' : List Outcome) :
    Prop where
  settled : Settled t'
  people : SamePeople t t'
  fails : NoneFails os → NoneFails os'
  change : ∃ ids, Permitted perms ids t t' ∧
    (∀ j ∈ ids, j ∉ todo ∧ t.Unsynced j ∧ Follows t'.ordered j category) ∧
      (NoneFails os → ids = p.synced)
  count : p.synced.length ≤ p.wanted
  done : NoneFails os → p.synced.length = p.wanted → ∀ j ∈ childrenOf t category, j ∉ todo →
    Follows t'.ordered j category

/-- One channel is synced if not turned down, unless a statement failed. -/
theorem SyncTried.synced (h : SyncTried perms id t os r t' os')
    (hcat : t.layout.parentCategory id = category) : ∃ ids ⊆ [id], Permitted perms ids t t' ∧
      (∀ j ∈ ids, Follows t'.ordered j category) ∧
        (NoneFails os → ids = if r = none then [id] else []) := by
  by_cases hr : r = none ∧ NoneFails os
  · have hf := hcat ▸ h.done hr.1 hr.2
    refine ⟨[id], List.Subset.refl _, ?_, by simpa using hf, fun _ => (if_pos hr.1).symm⟩
    exact h.change.elim (fun hc => hc.of_nil _) And.left
  · rcases h.change with hc | ⟨hc, -, hf, hwhy⟩
    · exact ⟨[], nil_subset _, hc, forall_mem_nil _,
        fun hos => (if_neg fun h => hr ⟨h, hos⟩).symm⟩
    · refine ⟨[id], List.Subset.refl _, hc, by simpa using hcat ▸ hf, fun hos => ?_⟩
      exact absurd hos (hwhy.elim (fun h hos => hr ⟨h, hos⟩) And.right)

theorem SyncingAll.next {t₁ t₂ : Tables} {os₁ os₂ : List Outcome} {p' : SyncProgress}
    (h : SyncingAll perms category t os (id :: todo) p t₁ os₁) (hid : id ∉ todo)
    (hcat : t₁.layout.parentOf.find? id = some category) (hu : t₁.Unsynced id)
    (h' : SyncTried perms id t₁ os₁ r t₂ os₂) (hwanted : p'.wanted = p.wanted + 1)
    (hsynced : p'.synced = p.synced ++ if r = none then [id] else []) :
    SyncingAll perms category t os todo p' t₂ os₂ := by
  obtain ⟨ids, hc, hids, hall⟩ := h.change
  have hparent : t₁.layout.parentCategory id = category := by
    rw [ChannelLayout.parentCategory, hcat, Option.getD_some]
  obtain ⟨ids', hsub, hc', hfollow, hall'⟩ := h'.synced hparent
  have hnew : id ∉ ids := fun hmem => (hids id hmem).1 (.head todo)
  have hold : ∀ j ∈ ids, j ∉ ids' := fun j hj hj' => hnew (mem_singleton.1 (hsub hj') ▸ hj)
  have hstay : ∀ j ∈ ids, Follows t₂.ordered j category := fun j hj =>
    hc'.follows (hold j hj) (hids j hj).2.2
  have hsource : t.layout.source id = id := (hc.source hnew).symm.trans (source_of_unsynced hu)
  have hlength : p'.synced.length ≤ p'.wanted ∧
      (p'.synced.length = p'.wanted → r = none ∧ p.synced.length = p.wanted) := by
    have hcount := h.count
    rw [hsynced, hwanted, length_append]
    split
    · exact ⟨Nat.succ_le_succ hcount, fun h => ⟨‹_›, Nat.succ.inj h⟩⟩
    · rw [length_nil, Nat.add_zero]
      exact ⟨Nat.le_succ_of_le hcount, fun h => absurd (h ▸ hcount) (Nat.not_succ_le_self _)⟩
  refine ⟨h'.settled, h.people.trans h'.people, fun hos => h'.fails (h.fails hos),
    ⟨ids ++ ids', ?_, ?_, fun hos => ?_⟩, hlength.1, fun hos hlen j hj hjt => ?_⟩
  · refine hc.append hc' (fun k hk => ?_) fun j hj hmem => ?_
    · obtain rfl := mem_singleton.1 (hsub hk)
      exact ⟨hnew, hsource.symm ▸ hnew⟩
    · rw [source_of_follows (hids j hj).2.2] at hmem
      -- the category is no channel under itself
      rw [Tables.layout, find?_parentOf_ofRows t₁.nodup_ordered] at hcat
      exact ne_of_parentIn t₁.nodup_ordered hcat (hids j hj).2.2.named (mem_singleton.1 (hsub hmem))
  · intro j hj
    by_cases hj' : j ∈ ids'
    · obtain rfl := mem_singleton.1 (hsub hj')
      exact ⟨hid, hc.unsynced hnew hu, hfollow _ hj'⟩
    · have hj := (mem_append.1 hj).resolve_right hj'
      exact ⟨fun hmem => (hids j hj).1 (.tail id hmem), (hids j hj).2.1, hstay j hj⟩
  · rw [hall hos, hall' (h.fails hos), hsynced]
  · obtain ⟨hr, hlen⟩ := hlength.2 hlen
    by_cases hjid : j = id
    · rw [hjid]
      exact hparent ▸ h'.done hr (h.fails hos)
    · refine hc'.follows (fun hmem => hjid (mem_singleton.1 (hsub hmem))) ?_
      exact h.done hos hlen j hj fun hmem => (mem_cons.1 hmem).elim hjid hjt

theorem SyncingAll.skip {t₁ : Tables} {os₁ : List Outcome}
    (h : SyncingAll perms category t os (id :: todo) p t₁ os₁)
    (hf : Follows t₁.ordered id category) : SyncingAll perms category t os todo p t₁ os₁ := by
  obtain ⟨ids, hc, hids, hall⟩ := h.change
  refine ⟨h.settled, h.people, h.fails, ⟨ids, hc, fun j hj => ?_, hall⟩, h.count,
    fun hos hlen j hj hjt => ?_⟩
  · exact ⟨fun hmem => (hids j hj).1 (.tail id hmem), (hids j hj).2⟩
  · by_cases hjid : j = id
    · exact hjid ▸ hf
    · exact h.done hos hlen j hj fun hmem => (mem_cons.1 hmem).elim hjid hjt

theorem on_syncChildren {t₁ : Tables} {os₁ : List Outcome} (hnodup : todo.Nodup)
    (hchild : ∀ j ∈ todo, j ∈ childrenOf t category)
    (h : SyncingAll (t.permsIn owner passes s.uid) category t os todo p t₁ os₁) :
    Triple (On owner passes t₁ os₁) (syncChildren now s category todo p)
      (Leaving owner passes (SyncingAll (t.permsIn owner passes s.uid) category t os [])) := by
  induction todo generalizing p t₁ os₁ with
  | nil => exact .pure fun d hd => ⟨t₁, os₁, h, hd⟩
  | cons id todo ih =>
    rw [nodup_cons] at hnodup
    have hrest : ∀ j ∈ todo, j ∈ childrenOf t category := fun j hj => hchild j (.tail id hj)
    obtain ⟨ids, hc, hids, -⟩ := h.change
    obtain ⟨hrow, hunder⟩ := mem_filter.1 (hchild id (.head todo))
    have hunder : t₁.layout.parentOf.find? id = some category :=
      (hc.parentOf id).trans (of_decide_eq_true hunder)
    -- the channels under the category are all there
    have hkey : id ∈ t₁.channels.keys := by
      rw [hc.keys]
      obtain ⟨c, hc, rfl⟩ := mem_map.1 hrow
      exact mem_map_of_mem (mem_ordered.1 hc)
    obtain ⟨c, hfind⟩ := Table.mem_keys.1 hkey
    refine on_getChannel.bind_eq ?_
    rw [hfind]
    obtain ⟨hcrow, hcid⟩ := Table.find?_eq_some.1 hfind
    refine .ite (fun hsynced => ih hnodup.2 hrest (h.skip ?_)) fun hunsynced => ?_
    · obtain ⟨parent, hf⟩ := h.settled.sync.follows c hcrow hsynced
      have hid : c.id = id := hcid
      rw [hid] at hf
      have hparent := hf.under
      rw [Tables.layout, find?_parentOf_ofRows t₁.nodup_ordered, hparent] at hunder
      exact Option.some.inj hunder ▸ hf
    · have hu : t₁.Unsynced id := hcid ▸ unsynced_of_row hcrow hunsynced
      have hnew : id ∉ ids := fun hmem => (hids id hmem).1 (.head todo)
      have hsource : t.layout.source id = id := (hc.source hnew).symm.trans (source_of_unsynced hu)
      have hperms : t₁.permsIn owner passes s.uid id = t.permsIn owner passes s.uid id :=
        permsIn_congr h.people (hc.parentOf id) (hc.source hnew)
          (hc.rows _ (hsource.symm ▸ hnew))
      refine Triple.bind (on_syncChannelWithCategory h.settled hperms category) fun r =>
        .of_exists fun t₂ => .of_exists fun os₂ => .of_and fun htried => ?_
      cases r with
      | none => exact ih hnodup.2 hrest (h.next hnodup.1 hunder hu htried rfl rfl)
      | some why =>
        exact ih hnodup.2 hrest (h.next hnodup.1 hunder hu htried rfl (append_nil _).symm)

/-- What came of a request to sync a category. -/
structure SyncedBy (perms : String → Permissions) (category : String) (t : Tables) (os : List Outcome)
    (r : ChannelActionRes × List ChannelPush) (t' : Tables) : Prop where
  settled : Settled t'
  change : ∃ ids, Permitted perms ids t t' ∧
    (∀ j ∈ ids, t.Unsynced j ∧ Follows t'.ordered j category) ∧
      (NoneFails os → r.2 = if ids = [] then [] else .channels :: ids.map .overwrites)
  granted : NoneFails os → r.1.success = true →
    ∀ j, t.layout.parentOf.find? j = some category → Follows t'.ordered j category

end Category

theorem on_synced {success : Bool} {message : Bytes} {synced : List String} {ch : DbChannel} :
    Triple (On owner passes t os) (do
      let ch := (← getChannel id).getD ch
      let mine ← channelPermissions s.uid id
      return ({ action := "sync", success, message, channel := some (ch, mine) },
        if synced = [] then [] else .channels :: synced.map .overwrites))
      fun (r : ChannelActionRes × List ChannelPush) d => (r.1.success = success ∧
        r.2 = if synced = [] then [] else .channels :: synced.map .overwrites) ∧
          On owner passes t os d :=
  on_getChannel.bind_eq (on_channelPermissions.bind_eq (.pure fun _ hd => ⟨⟨rfl, rfl⟩, hd⟩))

theorem on_permissionsSync_channel (ht : Settled t) (category : String)
    (htype : ∀ c ∈ t.channels.rows, c.id = id → c.type ≠ .category) :
    Triple (On owner passes t os) (permissionsSync now s id category)
      (Trying owner passes (t.permsIn owner passes s.uid) id t os) := by
  have hrefuse : ∀ why, Triple (On owner passes t os) (pure (refuseChannel "sync" why))
      (Trying owner passes (t.permsIn owner passes s.uid) id t os) := fun why d hd =>
    ⟨t, os, .of_refused ht _ _ _ why, hd⟩
  refine on_getChannel.bind_eq ?_
  cases hfind : t.channels.find? id with
  | none => exact hrefuse _
  | some ch =>
  obtain ⟨hch, hid⟩ := Table.find?_eq_some.1 hfind
  refine .ite (fun h => absurd h (htype ch hch hid)) fun _ => ?_
  refine Triple.bind (on_syncChannelWithCategory ht rfl category) fun r =>
    .of_exists fun t' => .of_exists fun os' => .of_and fun htried => ?_
  cases r with
  | none =>
    refine on_synced.conseq (fun _ h => h) fun r d hr => ⟨t', os', ⟨htried.settled, fun _ => ?_, ?_⟩, hr.2⟩
    · exact htried.change.elim (fun hc => hc.of_nil _) And.left
    · rw [hr.1.1]
      exact fun h => absurd h.symm Bool.false_ne_true
  | some why =>
    refine .pure fun d hd =>
      ⟨t', os', ⟨htried.settled, fun h => absurd h Bool.false_ne_true, fun _ => ?_⟩, hd⟩
    rcases htried.change with hc | ⟨-, -, -, hwhy | ⟨hwhy, hno⟩⟩
    · exact .inl hc.same
    · cases hwhy
    · cases hwhy
      exact .inr ⟨rfl, hno⟩

theorem on_categoryChildren {category : String} :
    Triple (On owner passes t os) (categoryChildren category)
      fun ids d => ids = childrenOf t category ∧ On owner passes t os d := by
  refine .get_bind fun d hd => ?_
  rw [hd.tables]
  exact on_getLayout.bind_eq (.pure fun _ hd => ⟨rfl, hd⟩)

theorem on_permissionsSync_category (ht : Settled t) {category : String} (expected : String)
    (htype : ∃ c ∈ t.channels.rows, c.id = category ∧ c.type = .category) :
    Triple (On owner passes t os) (permissionsSync now s category expected) fun r d =>
      ∃ t' os', SyncedBy (t.permsIn owner passes s.uid) category t os r t' ∧
        On owner passes t' os' d := by
  obtain ⟨ch, hch, hid, htype⟩ := htype
  refine on_getChannel.bind_eq ?_
  rw [Table.find?_eq_some.2 ⟨hch, hid⟩]
  refine .ite (fun _ => .ite (fun _ => ?_) fun _ => ?_) fun h => absurd htype h
  · have hstart :
        SyncingAll (t.permsIn owner passes s.uid) category t os (childrenOf t category) {} t os :=
      ⟨ht, .refl t, fun h => h, ⟨[], .refl _ t, forall_mem_nil _, fun _ => rfl⟩, Nat.le_refl 0,
        fun _ _ j hj hjt => absurd hj hjt⟩
    have hnodup : (childrenOf t category).Nodup := t.nodup_ordered.filter _
    refine on_categoryChildren.bind_eq (Triple.bind (on_syncChildren hnodup (fun _ h => h) hstart)
      fun p => .of_exists fun t' => .of_exists fun os' => .of_and fun hall => ?_)
    obtain ⟨ids, hc, hids, hsynced⟩ := hall.change
    have hchange : ∀ r : ChannelActionRes × List ChannelPush,
        r.2 = (if p.synced = [] then [] else .channels :: p.synced.map .overwrites) →
          ∃ ids, Permitted (t.permsIn owner passes s.uid) ids t t' ∧
            (∀ j ∈ ids, t.Unsynced j ∧ Follows t'.ordered j category) ∧
              (NoneFails os → r.2 = if ids = [] then [] else .channels :: ids.map .overwrites) :=
      fun r hr => ⟨ids, hc, fun j hj => (hids j hj).2, fun hos => hsynced hos ▸ hr⟩
    refine .ite (fun _ => ?_) fun hlen => ?_
    · refine on_synced.conseq (fun _ h => h) fun r d hr =>
        ⟨t', os', ⟨hall.settled, hchange r hr.1.2, fun _ h => ?_⟩, hr.2⟩
      rw [hr.1.1] at h
      cases h
    · refine on_synced.conseq (fun _ h => h) fun r d hr =>
        ⟨t', os', ⟨hall.settled, hchange r hr.1.2, fun hos _ j hj => ?_⟩, hr.2⟩
      refine hall.done hos (Nat.le_antisymm hall.count (Nat.le_of_not_lt hlen)) j ?_ not_mem_nil
      refine mem_filter.2 ⟨?_, decide_eq_true hj⟩
      by_contra hnone
      rw [Tables.layout, find?_parentOf_ofRows t.nodup_ordered, parentIn_eq_none.2 hnone] at hj
      cases hj
  · exact .pure fun d hd => ⟨t, os, ⟨ht, ⟨[], .refl _ t, forall_mem_nil _, fun _ => rfl⟩,
      fun _ h => absurd h Bool.false_ne_true⟩, hd⟩

end CommunityDb
end Decibell
