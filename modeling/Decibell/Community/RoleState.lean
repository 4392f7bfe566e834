import Decibell.Community.Coherence
import Decibell.Community.RoleEffects

/-!
# Every operation keeps the roles and what is cached of them

`Holding C` says that the cached permissions are those the tables give, that the roles are as the
server keeps them (`RolesOk`), and whatever `C` says of the owner and the roles.
-/

namespace Decibell

open Lib Lib.Conn Tables List

namespace Tables

/-- The two agree on roles and who has them. -/
structure SameRoles (t t' : Tables) : Prop where
  roles : t'.roles = t.roles
  memberRoles : t'.memberRoles = t.memberRoles
  sequence : t'.roleSequence = t.roleSequence

/-- What is said of the owner and the roles only. -/
def RolesOnly (C : Uid → Tables → Prop) : Prop :=
  ∀ owner t t', SameRoles t t' → C owner t → C owner t'

variable {t t' : Tables}

theorem SameRoles.rolesOk (h : SameRoles t t') (ht : t.RolesOk) : t'.RolesOk :=
  ⟨h.roles ▸ ht.default, h.roles ▸ ht.others, h.roles ▸ h.sequence ▸ ht.ids,
    h.memberRoles ▸ h.sequence ▸ ht.assigned⟩

theorem RolesOk.of_memberRoles (ht : t.RolesOk) (hr : t'.roles = t.roles)
    (hs : t'.roleSequence = t.roleSequence)
    (hm : ∀ a ∈ t'.memberRoles.rows, ∃ b ∈ t.memberRoles.rows, a.roleId = b.roleId) :
    t'.RolesOk := by
  refine ⟨hr ▸ ht.default, hr ▸ ht.others, hr ▸ hs ▸ ht.ids, fun a ha => ?_⟩
  obtain ⟨b, hb, hab⟩ := hm a ha
  rw [hs, hab]
  exact ht.assigned b hb

theorem SameRoles.permEntry (h : SameRoles t t') (owner uid : Uid) :
    t'.permEntry owner uid = t.permEntry owner uid :=
  permEntry_congr h.roles (by simp only [assignments, h.memberRoles])

theorem SameRoles.of_rewrites {S : String → Prop} {stmt : Stmt} (h : Rewrites S stmt)
    (hs : stmt t = some t') : SameRoles t t' := by
  obtain ⟨-, hr, hm, hq, -⟩ := h t t' hs
  exact ⟨hr, hm, hq⟩

end Tables

namespace Memory

variable {C : Uid → Tables → Prop} {m m' : Memory} {t t' : Tables} {uid : Uid}

/-- The cached permissions are right, the roles in order, and `C` holds. -/
structure Holding (C : Uid → Tables → Prop) (m : Memory) (t : Tables) : Prop where
  perm : m.permCache.Sound (t.permEntry m.ownerCache)
  ok : t.RolesOk
  extra : C m.ownerCache t

/-- Nothing is cached about any user. -/
structure Cold (C : Uid → Tables → Prop) (m : Memory) (t : Tables) : Prop
    extends m.Holding C t where
  empty : m.permCache = .empty

/-- Nothing is cached about the user. -/
structure Stranger (C : Uid → Tables → Prop) (uid : Uid) (m : Memory) (t : Tables) : Prop
    extends m.Holding C t where
  unknown : m.permCache.find? uid = none

theorem Cold.preserves {stmt : Stmt}
    (h : ∀ t t', t.RolesOk → C m.ownerCache t → stmt t = some t' →
      t'.RolesOk ∧ C m.ownerCache t') : Preserves (Cold C m) stmt := by
  intro t t' hm hs
  obtain ⟨hok, hc⟩ := h t t' hm.ok hm.extra hs
  exact ⟨⟨hm.empty ▸ Memo.sound_empty, hok, hc⟩, hm.empty⟩

theorem Stranger.preserves {stmt : Stmt} (hs : Concerns uid stmt)
    (h : ∀ t t', t.RolesOk → C m.ownerCache t → stmt t = some t' →
      t'.RolesOk ∧ C m.ownerCache t') : Preserves (Stranger C uid m) stmt := by
  intro t t' hm ht
  obtain ⟨hok, hc⟩ := h t t' hm.ok hm.extra ht
  obtain ⟨-, -, hr, ho⟩ := hs t t' ht
  refine ⟨⟨hm.perm.congr fun u _ hu => (permEntry_congr hr (ho u ?_).1).symm, hok, hc⟩, hm.unknown⟩
  rintro rfl
  rw [hm.unknown] at hu
  cases hu

theorem Holding.forgetPerms (h : m.Holding C t) :
    Cold C { m with permCache := .empty, channelPermCache := .empty } t :=
  ⟨⟨Memo.sound_empty, h.ok, h.extra⟩, rfl⟩

theorem Holding.forgetUser (h : m.Holding C t) (uid : Uid) :
    Stranger C uid { m with
      permCache := m.permCache.erase uid
      channelPermCache := m.channelPermCache.erase uid } t :=
  ⟨⟨h.perm.erase uid, h.ok, h.extra⟩, Memo.find?_erase_self _ _⟩

end Memory

namespace CommunityDb

open Memory

/-! ## Writers of channels -/

/-- Kept by steps in memory that leave the owner and the cached permissions. -/
def Stable (I : CommunityDb → Prop) : Prop := ∀ d d', d'.conn = d.conn →
  d'.permCache = d.permCache → d'.ownerCache = d.ownerCache → I d → I d'

/-- It looks at the owner, the cached permissions and the roles only. -/
def AboutRoles (R : Memory → Tables → Prop) : Prop := ∀ m m' t t', m'.permCache = m.permCache →
  m'.ownerCache = m.ownerCache → SameRoles t t' → R m t → R m' t'

variable {C : Uid → Tables → Prop}

theorem aboutRoles_holding (hC : RolesOnly C) : AboutRoles (Holding C) := by
  intro m m' t t' hp ho ht hm
  refine ⟨?_, ht.rolesOk hm.ok, hC _ _ _ ht (ho ▸ hm.extra)⟩
  rw [hp, ho]
  exact hm.perm.congr fun u _ _ => (ht.permEntry _ _).symm

section Stable

variable {I : CommunityDb → Prop} (hI : Stable I)
include hI

theorem Stable.keeps_modify {f : CommunityDb → CommunityDb} (hf : ∀ d, (f d).conn = d.conn ∧
    (f d).permCache = d.permCache ∧ (f d).ownerCache = d.ownerCache) : Keeps I (modify f) :=
  fun d hd => hI d (f d) (hf d).1 (hf d).2.1 (hf d).2.2 hd

theorem Stable.keeps_eraseOverwritesCache (id : String) : Keeps I (eraseOverwritesCache id) :=
  hI.keeps_modify fun _ => ⟨rfl, rfl, rfl⟩

theorem Stable.keeps_invalidateChannelLayout : Keeps I invalidateChannelLayout :=
  hI.keeps_modify fun _ => ⟨rfl, rfl, rfl⟩

theorem Stable.keeps_rebuildChannelLayout : Keeps I rebuildChannelLayout :=
  hI.keeps_modify fun _ => ⟨rfl, rfl, rfl⟩

theorem Stable.keeps_getLayout : Keeps I getLayout := by
  have hread : Keeps I (do return (← get).layout) := .get_bind fun _ _ => Keeps.pure
  exact .get_bind fun _ _ => .ite (fun _ => hI.keeps_rebuildChannelLayout.bind fun _ => hread)
    fun _ => hread

theorem Stable.keeps_overwrites (id : String) : Keeps I (overwrites id) := by
  refine .get_bind fun d hd => ?_
  cases d.overwritesCache.find? id with
  | some rows => exact Keeps.pure
  | none => exact fun _ _ => hI d _ rfl rfl rfl hd

theorem Stable.keeps_overwritesIf (wanted : Bool) (id : String) : Keeps I (overwritesIf wanted id) :=
  .ite (hI.keeps_overwrites id) .pure

end Stable

section Channels

variable {R : Memory → Tables → Prop} (hR : AboutRoles R)
include hR

theorem AboutRoles.inv : Stable (Inv R) := by
  intro d d' hc hp ho hd
  have hr : ∀ t, R d.toMemory t → R d'.toMemory t := fun t => hR _ _ _ _ hp ho ⟨rfl, rfl, rfl⟩
  rw [Inv, hc]
  exact ⟨hr _ hd.1, fun t ht => hr t (hd.2 t ht)⟩

theorem AboutRoles.quiet : Stable (Quiet R) := fun d d' hc hp ho hd =>
  (hR.inv d d' hc hp ho hd.inv).quiet ((congrArg Conn.saved hc).trans hd.idle)

theorem AboutRoles.preserves {m : Memory} {stmt : Stmt} (h : Rewrites (fun _ => True) stmt) :
    Preserves (R m) stmt :=
  fun _ _ hm hs => hR _ _ _ _ rfl rfl (.of_rewrites h hs) hm

theorem AboutRoles.keeps_renumber (ids : List String) (position : Nat → Int) :
    Keeps (Inv R) (sql (execAll (renumber ids position))) :=
  keeps_execAll fun stmt hs m => by
    obtain ⟨i, hi, rfl⟩ := mem_mapIdx.1 hs
    exact hR.preserves (rewrites_setPosition _)

theorem AboutRoles.keeps_writeOwnOverwrites (id : String) (rows : List DbOverwrite) (synced : Bool) :
    Keeps (Inv R) (sql (execAll (writeOwnOverwrites id rows synced))) :=
  keeps_execAll fun _ hs _ => hR.preserves (rewrites_writeOwnOverwrites trivial hs)

theorem AboutRoles.keeps_keepOverwrites {rows : String → DbM (List DbOverwrite)}
    (hrows : ∀ k, Keeps (Inv R) (rows k)) (channels : List (String × String)) :
    Keeps (Inv R) (keepOverwrites rows channels) :=
  .allM fun _ _ => (hrows _).bind fun _ => (hR.keeps_writeOwnOverwrites _ _ _).bind fun _ =>
    (hR.inv.keeps_eraseOverwritesCache _).bind fun _ => .pure

theorem AboutRoles.keeps_normalizeChannelOrder : Keeps (Quiet R) normalizeChannelOrder :=
  .get_bind fun _ _ => triple_begin
    ((hR.keeps_renumber _ _).seq fun _ => triple_finish.bind fun _ =>
      hR.quiet.keeps_invalidateChannelLayout) Keeps.pure

theorem AboutRoles.keeps_enforceSyncInvariant : Keeps (Quiet R) enforceSyncInvariant := by
  refine hR.quiet.keeps_getLayout.bind fun layout => .ite (triple_begin ?_ Keeps.pure) .pure
  refine Keeps.seq (keeps_execAll fun stmt hs m => ?_) fun ok =>
    triple_finish.bind fun _ => hR.quiet.keeps_invalidateChannelLayout
  obtain ⟨id, -, rfl⟩ := mem_map.1 hs
  exact hR.preserves (rewrites_setPermSynced _)

theorem AboutRoles.keeps_createChannel (rawName : Bytes) (type : ChannelType) (voiceBitrateKbps : Int)
    (categoryId : String) (encrypted : Bool) :
    Keeps (Quiet R) (createChannel rawName type voiceBitrateKbps categoryId encrypted) := by
  refine .get_bind fun d _ => .ite (fun _ => Keeps.pure) fun _ => ?_
  cases insertionIndex d.tables.ordered type categoryId with
  | none => exact Keeps.pure
  | some idx =>
  refine triple_begin ?_ Keeps.pure
  refine (hR.keeps_renumber _ _).seq fun ok => hR.inv.keeps_getLayout.seq fun layout => ?_
  refine Keeps.seq (keeps_execIf fun m => hR.preserves (rewrites_insertChannel _)) fun ok =>
    triple_finish.bind fun _ => .ite (fun _ => ?_) fun _ => Keeps.pure
  exact hR.keeps_normalizeChannelOrder.bind fun _ =>
    hR.quiet.keeps_invalidateChannelLayout.bind fun _ => .pure

theorem AboutRoles.keeps_reorderChannels (orderedIds : List String) :
    Keeps (Quiet R) (reorderChannels orderedIds) := by
  refine .get_bind fun d _ => .ite (fun _ => ?_) fun _ => Keeps.pure
  have hforget := hR.quiet.keeps_invalidateChannelLayout
  have hend : Keeps (Quiet R) (do enforceSyncInvariant; return true) :=
    hR.keeps_enforceSyncInvariant.bind fun _ => .pure
  refine hR.quiet.keeps_getLayout.bind fun layout => triple_begin ?_ Keeps.pure
  refine (hR.keeps_renumber _ _).seq fun ok => triple_finish.bind fun _ => hforget.bind fun _ =>
    .ite ?_ .pure
  refine hR.keeps_normalizeChannelOrder.bind fun _ => hR.quiet.keeps_rebuildChannelLayout.bind
    fun _ => hR.quiet.keeps_getLayout.bind fun _ => .ite (triple_begin ?_ hend) hend
  exact (hR.keeps_keepOverwrites hR.inv.keeps_overwrites _).seq fun kept => triple_finish.bind fun _ =>
    hforget.bind fun _ => hend

theorem AboutRoles.triple_writeOwn (id : String) (rows : List DbOverwrite) (synced : Bool) :
    Triple (Inv R) (do
      let ok ← sql (execAll (Tables.writeOwnOverwrites id rows synced))
      sql (finish ok)
      eraseOverwritesCache id
      invalidateChannelLayout
      return ok) fun _ => Quiet R :=
  (hR.keeps_writeOwnOverwrites id rows synced).seq fun _ => triple_finish.bind fun _ =>
    (hR.quiet.keeps_eraseOverwritesCache id).bind fun _ =>
      hR.quiet.keeps_invalidateChannelLayout.bind fun _ => .pure

theorem AboutRoles.keeps_syncChannelPermissions (id : String) :
    Keeps (Quiet R) (syncChannelPermissions id) :=
  hR.quiet.keeps_getLayout.bind fun _ => .ite .pure (triple_begin (hR.triple_writeOwn id [] true) Keeps.pure)

theorem AboutRoles.keeps_restoreChannelOverwrites (id : String) (rows : List DbOverwrite) :
    Keeps (Quiet R) (restoreChannelOverwrites id rows) :=
  triple_begin (hR.triple_writeOwn id rows false) Keeps.pure

theorem AboutRoles.keeps_setCategorySync (id : String) (on : Bool) :
    Keeps (Quiet R) (setCategorySync id on) := by
  refine hR.quiet.keeps_getLayout.bind fun layout => ?_
  cases layout.categorySyncOf.find? id with
  | none => exact Keeps.pure
  | some was =>
  refine .ite .pure ((hR.quiet.keeps_overwritesIf _ id).bind fun rows => triple_begin ?_ Keeps.pure)
  refine (hR.keeps_keepOverwrites (fun _ => .pure) _).seq fun ok =>
    (keeps_execIf fun m => hR.preserves (rewrites_setCategorySync on)).seq fun ok => ?_
  exact triple_finish.bind fun _ => hR.quiet.keeps_invalidateChannelLayout.bind fun _ => .pure

theorem AboutRoles.keeps_setOverwrite (ow : DbOverwrite) : Keeps (Quiet R) (setOverwrite ow) := by
  refine .get_bind fun d _ => ?_
  dsimp only
  cases d.tables.channels.find? ow.channelId with
  | none => exact Keeps.pure
  | some channel =>
  have herase := hR.quiet.keeps_eraseOverwritesCache ow.channelId
  have hforget := hR.quiet.keeps_invalidateChannelLayout
  refine .ite (fun _ => Keeps.pure) fun _ => ?_
  refine Keeps.bind (hR.quiet.keeps_getLayout.bind fun _ => .pure) fun source => ?_
  refine (hR.quiet.keeps_overwritesIf _ source).bind fun inherited => herase.bind fun _ =>
    hforget.bind fun _ => Keeps.bind ?_ fun ok => herase.bind fun _ => hforget.bind fun _ => .pure
  refine keeps_transact fun stmt hs m => hR.preserves ?_
  rcases mem_append.1 hs with hs | hs
  · rcases mem_append.1 hs with hs | hs
    · split at hs
      · cases hs
      · exact rewrites_writeOwnOverwrites trivial hs
    · split at hs
      · cases hs
      · obtain rfl := mem_singleton.1 hs
        exact rewrites_setPermSynced _
  · obtain rfl := mem_singleton.1 hs
    split
    · have hown : ∀ x : DbOverwrite, decide (x.key = ow.key) = true → x.channelId = ow.channelId :=
        fun x hx => congrArg Prod.fst (of_decide_eq_true hx)
      exact rewrites_deleteRows trivial hown
    · have hown : ow.channelId = ow.channelId := rfl
      exact rewrites_upsertRow trivial hown

theorem AboutRoles.keeps_deleteChannel (id : String) : Keeps (Quiet R) (deleteChannel id) := by
  refine .get_bind fun d _ => .ite (fun _ => Keeps.pure) fun _ => ?_
  refine hR.quiet.keeps_getLayout.bind fun layout => (hR.quiet.keeps_overwritesIf _ id).bind fun rows => ?_
  refine triple_begin ?_ Keeps.pure
  refine (hR.keeps_keepOverwrites (fun _ => .pure) _).seq fun _ => Keeps.seq (keeps_sql fun m => ?_)
    fun _ => Keeps.seq (keeps_execAll fun stmt hs m => hR.preserves ?_) fun ok => ?_
  · refine (within_exec ?_).bind fun _ => (within_exec ?_).bind fun _ =>
      (within_exec ?_).bind fun _ => (within_exec ?_).bind fun _ => .pure
    all_goals
      refine hR.preserves (rewrites_of_frame ?_)
      rintro t _ ⟨⟩
      exact ⟨rfl, rfl, rfl, rfl, rfl⟩
  · simp only [wipeChannel, mem_cons, not_mem_nil, or_false] at hs
    rcases hs with rfl | rfl | rfl | rfl
    · exact rewrites_of_frame (by rintro t _ ⟨⟩; exact ⟨rfl, rfl, rfl, rfl, rfl⟩)
    · exact rewrites_of_frame (by rintro t _ ⟨⟩; exact ⟨rfl, rfl, rfl, rfl, rfl⟩)
    · have hown : ∀ x : DbOverwrite, decide (x.channelId = id) = true → x.channelId = id :=
        fun x hx => of_decide_eq_true hx
      exact rewrites_deleteRows trivial hown
    · exact rewrites_of_frame (by rintro t _ ⟨⟩; exact ⟨rfl, rfl, rfl, rfl, rfl⟩)
  · have hforget : Keeps (Quiet R) invalidateChannelLayout :=
      hR.quiet.keeps_modify fun _ => ⟨rfl, rfl, rfl⟩
    refine triple_finish.bind fun _ => (hR.quiet.keeps_eraseOverwritesCache id).bind fun _ =>
      hforget.bind fun _ => .ite ?_ .pure
    exact hR.keeps_normalizeChannelOrder.bind fun _ => .pure

theorem AboutRoles.keeps_revokeVoicePass (uid : Uid) (id : String) :
    Keeps (Quiet R) (revokeVoicePass uid id) := by
  refine .get_bind fun _ _ => .ite (fun _ => ?_) fun _ => Keeps.pure
  exact Keeps.bind (hR.quiet.keeps_modify fun _ => ⟨rfl, rfl, rfl⟩) fun _ => .pure

end Channels

/-! ## Writers of roles -/

section Roles

variable {t₀ : Tables}

theorem triple_invalidatePermCache_cold :
    Triple (Quiet (Holding C)) invalidatePermCache fun _ => Quiet (Cold C) :=
  fun _ hd => ⟨hd.rel.forgetPerms, hd.idle⟩

theorem triple_invalidatePermCache_at :
    Triple (Quiet fun m t => Holding C m t ∧ t = t₀) invalidatePermCache
      fun _ => Quiet fun m t => Cold C m t ∧ t = t₀ :=
  fun _ hd => ⟨⟨hd.rel.1.forgetPerms, hd.rel.2⟩, hd.idle⟩

theorem Cold.after {m : Memory} {t t' : Tables} (h : Cold C m t) (hok : t'.RolesOk)
    (hc : C m.ownerCache t') : Holding C m t' :=
  ⟨h.empty ▸ Memo.sound_empty, hok, hc⟩

theorem keeps_createRole_holding
    (hup : ∀ o t t', t.RolesOk → C o t → shiftRoles (fun _ => true) 1 t = some t' → C o t')
    (hnew : ∀ o t t' role, role.isDefault = false → role.position = 1 → t.RolesOk → C o t →
      insertRole role t = some t' → C o t')
    (rawName : Bytes) (color : BitVec 32) (permissions : Permissions) (manageEachOther : Bool) :
    Keeps (Quiet (Holding C)) (createRole rawName color permissions manageEachOther) := by
  refine .ite .pure (triple_invalidatePermCache_cold.bind fun _ => ?_)
  refine triple_begin ?_ (.pure fun _ h => h.imp fun _ _ hm => hm.toHolding)
  refine (keeps_exec fun m => Cold.preserves fun t t' hok hc hs =>
    ⟨shiftAll_rolesOk hok hs, hup _ t t' hok hc hs⟩).seq fun _ => .get_bind fun d _ => ?_
  refine (keeps_exec fun m => Cold.preserves fun t t' hok hc hs =>
    ⟨insertRole_rolesOk rfl rfl hok hs, hnew _ t t' _ rfl rfl hok hc hs⟩).seq fun _ =>
      .ite (fun _ => ?_) fun _ => ?_
  · exact triple_commit.bind fun _ => .pure fun _ h => h.imp fun _ _ hm => hm.toHolding
  · exact triple_rollback.bind fun _ => .pure fun _ h => h.imp fun _ _ hm => hm.toHolding

theorem triple_updateRole_holding {roleId : Int} {permissions : Permissions} {position : Int}
    (h : ∀ o t', t₀.RolesOk → t₀.UpdatesRole roleId permissions position t' → C o t₀ → C o t')
    (rawName : Bytes) (color : BitVec 32) (manageEachOther : Bool) :
    Triple (Quiet fun m t => Holding C m t ∧ t = t₀)
      (updateRole roleId rawName color permissions position manageEachOther)
      fun _ => Quiet (Holding C) := by
  have hpure : Triple (Quiet fun m t => Holding C m t ∧ t = t₀) (pure false : DbM Bool)
      fun _ => Quiet (Holding C) := .pure fun _ hd => hd.imp fun _ _ => And.left
  refine .get_bind fun d hd => ?_
  obtain ⟨⟨-, rfl⟩, -⟩ := hd
  dsimp only
  cases hf : d.tables.findRole roleId with
  | none => exact hpure
  | some role =>
  obtain ⟨hr, hrid⟩ := Table.find?_eq_some.1 hf
  have hafter : ∀ m t', Cold C m d.tables → d.tables.UpdatesRole roleId permissions position t' →
      Holding C m t' := fun m t' hm hu =>
    Cold.after hm (hu.rolesOk hm.ok) (h _ _ hm.ok hu hm.extra)
  refine triple_invalidatePermCache_at.bind fun _ => .ite (fun hrd => ?_) fun hrd =>
    .ite (fun _ => .pure fun _ hd => hd.imp fun _ _ hm => hm.1.toHolding) fun _ => ?_
  · refine triple_exec (fun _ hm => hm.toHolding) fun m t' hm hs => hafter m t' hm ?_
    refine .everyone hr hrid hrd ?_ ?_ ?_ hs <;> exact fun _ => rfl
  · refine triple_transact (fun _ hm => hm.toHolding) fun m t' hm hs => hafter m t' hm ?_
    refine .other hr hrid (by simpa using hrd) ?_ ?_ ?_ hs <;> exact fun _ => rfl

theorem triple_deleteRole_holding {roleId : Int}
    (h : ∀ o role t', t₀.RolesOk → role ∈ t₀.roles.rows → role.id = roleId →
      role.isDefault = false → applyAll (deletion roleId role.position) t₀ = some t' → C o t₀ → C o t') :
    Triple (Quiet fun m t => Holding C m t ∧ t = t₀) (deleteRole roleId)
      fun _ => Quiet (Holding C) := by
  have hpure : Triple (Quiet fun m t => Holding C m t ∧ t = t₀) (pure false : DbM Bool)
      fun _ => Quiet (Holding C) := .pure fun _ hd => hd.imp fun _ _ => And.left
  refine .get_bind fun d hd => ?_
  obtain ⟨⟨-, rfl⟩, -⟩ := hd
  cases hf : d.tables.findRole roleId with
  | none => exact hpure
  | some role =>
  obtain ⟨hr, hrid⟩ := Table.find?_eq_some.1 hf
  refine .ite (fun _ => hpure) fun hrd => triple_invalidatePermCache_at.bind fun _ => ?_
  have hrd : role.isDefault = false := by simpa using hrd
  refine Triple.bind (Q := fun _ => Quiet fun m t => Cold C m t ∧ t = d.tables)
    (fun _ ⟨⟨hm, ht⟩, hi⟩ => ⟨⟨⟨⟨hm.perm, hm.ok, hm.extra⟩, hm.empty⟩, ht⟩, hi⟩) fun _ => ?_
  refine triple_transact (fun _ hm => hm.toHolding) fun m t' hm hs => ?_
  have hs : applyAll (deletion roleId role.position) d.tables = some t' := hs
  exact Cold.after hm (delete_rolesOk (hm.ok.others _ hr hrd) hm.ok hs)
    (h _ _ _ hm.ok hr hrid hrd hs hm.extra)

theorem triple_setMemberRoles_holding {uid : Uid} {roleIds : List Int}
    (h : ∀ o t', t₀.RolesOk → t'.RolesOk → applyAll (assignment uid roleIds) t₀ = some t' →
      C o t₀ → C o t') :
    Triple (Quiet fun m t => Holding C m t ∧ t = t₀) (setMemberRoles uid roleIds)
      fun _ => Quiet (Holding C) := by
  refine .get_bind fun d hd => ?_
  obtain ⟨⟨-, rfl⟩, -⟩ := hd
  refine .ite (fun hids => ?_) fun _ => .pure fun _ hd => hd.imp fun _ _ => And.left
  have hids : ∀ id ∈ roleIds, ∃ r ∈ d.tables.roles.rows, r.id = id := by
    intro id hid
    have hfound := all_eq_true.1 hids id hid
    cases hf : d.tables.findRole id with
    | none => rw [hf] at hfound; cases hfound
    | some r => exact ⟨r, Table.find?_eq_some.1 hf⟩
  refine Triple.bind (Q := fun _ => Quiet fun m t => Stranger C uid m t ∧ t = d.tables)
    (fun _ hd => ⟨⟨hd.rel.1.forgetUser uid, hd.rel.2⟩, hd.idle⟩) fun _ => ?_
  refine triple_transact (fun _ hm => hm.toHolding) fun m t' hm hs => ?_
  have hs : applyAll (assignment uid roleIds) d.tables = some t' := hs
  obtain ⟨hr, -, ho⟩ := assignment_frame hs
  -- what is cached about others does not depend on the roles of this user
  have hok := assign_rolesOk hids hm.ok hs
  refine ⟨hm.perm.congr fun u _ hu => (permEntry_congr hr (ho u ?_)).symm, hok,
    h _ _ hm.ok hok hs hm.extra⟩
  rintro rfl
  rw [hm.unknown] at hu
  cases hu

end Roles

/-! ## Writers of members -/

/-- The cached permissions are right and the roles are in order. -/
abbrev RoleState : Memory → Tables → Prop := Holding fun _ _ => True

section Members

theorem preserves_stranger {uid : Uid} {stmt : Stmt} {m : Memory} (hc : Concerns uid stmt)
    (h : ∀ t t', stmt t = some t' → t'.roleSequence = t.roleSequence ∧
      t'.memberRoles.rows ⊆ t.memberRoles.rows) :
    Preserves (Stranger (fun _ _ => True) uid m) stmt := by
  refine Stranger.preserves hc fun t t' hok _ hs => ⟨?_, trivial⟩
  obtain ⟨hseq, hsub⟩ := h t t' hs
  exact hok.of_memberRoles (hc t t' hs).2.2.1 hseq fun a ha => ⟨a, hsub ha, rfl⟩

theorem keeps_addMember_roleState (uid : Uid) (username : String) (nameIat now : Int) :
    Keeps (Quiet RoleState) (addMember uid username nameIat now) := by
  refine .ite .pure (Triple.bind (Q := fun _ => Quiet (Stranger (fun _ _ => True) uid))
    (fun _ hd => ⟨hd.rel.forgetUser uid, hd.idle⟩) fun _ => ?_)
  refine (keeps_quiet_exec fun m => preserves_stranger (concerns_insertMember _) fun t t' h => ?_).conseq
    (fun _ => id) fun _ _ h => h.imp fun _ _ hm => hm.toHolding
  obtain ⟨members, -, rfl⟩ := Option.map_eq_some_iff.1 h
  exact ⟨rfl, List.Subset.refl _⟩

theorem triple_forgetUser_stranger (uid : Uid) :
    Triple (Quiet RoleState) (forgetUser uid) fun _ => Quiet (Stranger (fun _ _ => True) uid) :=
  fun _ hd => ⟨⟨⟨hd.rel.perm.erase uid, hd.rel.ok, trivial⟩, Memo.find?_erase_self _ _⟩, hd.idle⟩

theorem preserves_forgetMember (uid : Uid) {m : Memory} :
    Preserves (Stranger (fun _ _ => True) uid m) (deleteOverwrites (memberOverwrite uid)) ∧
      Preserves (Stranger (fun _ _ => True) uid m) (deleteMemberRoles (·.uid = uid)) ∧
        Preserves (Stranger (fun _ _ => True) uid m) (deleteMember uid) := by
  refine ⟨preserves_stranger concerns_deleteOverwrites ?_,
    preserves_stranger concerns_deleteMemberRoles ?_, preserves_stranger concerns_deleteMember ?_⟩ <;>
    rintro t _ ⟨⟩
  · exact ⟨rfl, List.Subset.refl _⟩
  · exact ⟨rfl, fun _ => mem_of_mem_filter⟩
  · exact ⟨rfl, List.Subset.refl _⟩

theorem keeps_removeMember_roleState (uid : Uid) : Keeps (Quiet RoleState) (removeMember uid) := by
  have hback : ∀ d, Quiet (Stranger (fun _ _ => True) uid) d → Quiet RoleState d :=
    fun _ h => h.imp fun _ _ hm => hm.toHolding
  refine (triple_forgetUser_stranger uid).bind fun _ => triple_begin ?_ (.pure hback)
  refine (keeps_exec fun m => (preserves_forgetMember uid).1).seq fun _ => ?_
  refine (keeps_exec fun m => (preserves_forgetMember uid).2.1).seq fun _ => .get_bind fun d _ => ?_
  refine (keeps_exec fun m => (preserves_forgetMember uid).2.2).seq fun _ =>
    .ite (fun _ => ?_) fun _ => ?_
  · exact triple_commit.bind fun _ => .pure hback
  · exact triple_rollback.bind fun _ => .pure hback

theorem keeps_addBan_roleState (uid : Uid) (username : Bytes) (bannedByUid : Uid)
    (bannedBy reason : Bytes) (expiresAt now : Int) :
    Keeps (Quiet RoleState) (addBan uid username bannedByUid bannedBy reason expiresAt now) := by
  have hback : ∀ d, Quiet (Stranger (fun _ _ => True) uid) d → Quiet RoleState d :=
    fun _ h => h.imp fun _ _ hm => hm.toHolding
  refine .ite .pure ((triple_forgetUser_stranger uid).bind fun _ => triple_begin ?_ (.pure hback))
  refine (keeps_exec fun m => (preserves_forgetMember uid).1).seq fun _ => ?_
  refine (keeps_exec fun m => (preserves_forgetMember uid).2.1).seq fun _ => ?_
  refine (keeps_exec fun m => (preserves_forgetMember uid).2.2).seq fun _ => ?_
  refine (keeps_exec fun m => preserves_stranger (concerns_upsertBan _) ?_).seq fun ok =>
    triple_finish.bind fun _ => .pure hback
  rintro t _ ⟨⟩
  exact ⟨rfl, List.Subset.refl _⟩

theorem setOwner_cold {m : Memory} {t : Tables} (ht : t.RolesOk) (owner : Uid) :
    Cold (fun _ _ => True)
      { m with ownerCache := owner, permCache := .empty, channelPermCache := .empty } t :=
  ⟨⟨Memo.sound_empty, ht, trivial⟩, rfl⟩

theorem preserves_setMeta (key value : String) {m : Memory} :
    Preserves (Holding (fun _ _ => True) m) (Tables.setMeta key value) := by
  rintro t _ hm ⟨⟩
  exact aboutRoles_holding (fun _ _ _ _ => id) m m t _ rfl rfl ⟨rfl, rfl, rfl⟩ hm

theorem keeps_transferOwnership_roleState (newOwnerUid : Uid) :
    Keeps (Quiet RoleState) (transferOwnership newOwnerUid) := by
  refine .get_bind fun d _ => .ite (fun _ => ?_) fun _ => Keeps.pure
  refine Triple.bind (Q := fun _ => Quiet RoleState) ?_ fun _ => Keeps.pure
  refine (keeps_quiet_exec fun m => preserves_setMeta _ _).seq fun _ => ?_
  exact fun d hd => ⟨(setOwner_cold hd.rel.ok _).toHolding, hd.idle⟩

theorem rolesOk_claimRewrites {uid placeholder : Uid} {stmt : Stmt} {t t' : Tables}
    (hs : stmt ∈ claimRewrites uid placeholder) (ht : t.RolesOk) (h : stmt t = some t') :
    t'.RolesOk := by
  have hsame : t'.roles = t.roles ∧ t'.roleSequence = t.roleSequence ∧
      ∀ a ∈ t'.memberRoles.rows, ∃ b ∈ t.memberRoles.rows, a.roleId = b.roleId := by
    have hid : ∀ a ∈ t.memberRoles.rows, ∃ b ∈ t.memberRoles.rows, a.roleId = b.roleId :=
      fun a ha => ⟨a, ha, rfl⟩
    simp only [claimRewrites, mem_cons, not_mem_nil, or_false] at hs
    rcases hs with rfl | rfl | rfl | rfl | hs
    · cases h; exact ⟨rfl, rfl, hid⟩
    · cases h; exact ⟨rfl, rfl, hid⟩
    · cases h
      refine ⟨rfl, rfl, fun a ha => ?_⟩
      rcases Table.mem_rekeyOrIgnore ha with ha | ⟨b, hb, rfl⟩
      · exact hid a ha
      · exact ⟨b, hb, rfl⟩
    · cases h
      exact ⟨rfl, rfl, fun a ha => hid a (mem_of_mem_filter ha)⟩
    · casesm* _ ∨ _ <;> subst stmt <;> cases h <;> exact ⟨rfl, rfl, hid⟩
  exact ht.of_memberRoles hsame.1 hsame.2.1 hsame.2.2

theorem keeps_claimLegacy_roleState (uid : Uid) (username : String) (now : Int) :
    Keeps (Quiet RoleState) (claimLegacy uid username now) := by
  refine .get_bind fun d _ => .ite (fun _ => Keeps.pure) fun _ => .ite (fun _ => ?_) fun _ => ?_
  · refine (keeps_quiet_exec fun m => ?_).seq fun _ => Keeps.pure
    rintro t _ hm ⟨⟩
    exact aboutRoles_holding (fun _ _ _ _ => id) m m t _ rfl rfl ⟨rfl, rfl, rfl⟩ hm
  dsimp only
  cases d.tables.legacyClaims.find? username with
  | none => exact Keeps.pure
  | some c =>
  refine .ite (fun _ => Keeps.pure) fun _ => triple_invalidatePermCache_cold.bind fun _ => ?_
  refine Triple.bind (Q := fun _ => Quiet (Cold fun _ _ => True))
    (fun _ ⟨hm, hi⟩ => ⟨⟨⟨hm.perm, hm.ok, hm.extra⟩, hm.empty⟩, hi⟩) fun _ => ?_
  refine triple_begin ?_ (.pure fun _ h => h.imp fun _ _ hm => hm.toHolding)
  refine (keeps_execAll fun stmt hs m => Cold.preserves fun t t' hok _ h =>
    ⟨rolesOk_claimRewrites hs hok h, trivial⟩).seq fun ok => ?_
  -- whatever became of the statements, the transaction ends and nothing is cached
  have hend : Triple (Inv (Cold fun _ _ => True)) (do
      sql (finish ok)
      if ok then return some c.2
      else
        modify fun d => { d with
          ownerCache := (stoll (d.tables.getMeta "owner_uid")).getD d.ownerCache }
        invalidatePermCache
        return none) fun _ => Quiet RoleState := by
    refine triple_finish.bind fun _ => .ite (fun _ => ?_) fun _ => ?_
    · exact .pure fun _ h => h.imp fun _ _ hm => hm.toHolding
    · exact fun d hd => ⟨(setOwner_cold hd.rel.ok _).toHolding, hd.idle⟩
  refine .get_bind fun d _ => .ite (fun _ => Triple.bind (Q := fun _ => Inv (Cold fun _ _ => True))
    ((keeps_exec fun m => ?_).seq fun _ d hd => ?_) fun _ => hend) fun _ => hend
  · rintro t _ hm ⟨⟩
    exact ⟨aboutRoles_holding (fun _ _ _ _ => id) m m t _ rfl rfl ⟨rfl, rfl, rfl⟩ hm.toHolding, hm.empty⟩
  · exact ⟨setOwner_cold hd.1.ok _, fun t ht => setOwner_cold (hd.2 t ht).ok _⟩

end Members

/-! ## Queries of permissions -/

section Queries

variable {R : Memory → Tables → Prop}

/-- Cached permissions are right; nothing else is known of them. -/
structure Caching (R : Memory → Tables → Prop) : Prop where
  sound : ∀ m t, R m t → m.permCache.Sound (t.permEntry m.ownerCache)
  fill : ∀ m t cache, R m t → cache.Sound (t.permEntry m.ownerCache) →
    R { m with permCache := cache } t

theorem caching_holding : Caching (Holding C) where
  sound _ _ h := h.perm
  fill _ _ _ h hc := ⟨hc, h.ok, h.extra⟩

theorem Caching.triple_permEntry (hR : Caching R) (uid : Uid) :
    Triple (Quiet R) (permEntry uid)
      fun e d => e = d.tables.permEntry d.ownerCache uid ∧ Quiet R d := by
  intro d hd
  cases hf : d.permCache.find? uid with
  | some e =>
    have hrun : (permEntry uid).run d = (e, d) := by simp [permEntry, hf]; rfl
    rw [hrun]
    exact ⟨hR.sound _ _ hd.rel _ _ hf, hd⟩
  | none =>
    let cache := (d.permCache.bound cacheBound).emplace uid (d.tables.permEntry d.ownerCache uid)
    have hrun : (permEntry uid).run d =
        (d.tables.permEntry d.ownerCache uid, { d with permCache := cache }) := by
      simp [permEntry, hf]; rfl
    rw [hrun]
    exact ⟨rfl, hR.fill _ _ _ hd.rel (((hR.sound _ _ hd.rel).bound _).emplace uid), hd.idle⟩

theorem keeps_permEntry (uid : Uid) : Keeps (Quiet (Holding C)) (permEntry uid) :=
  (caching_holding.triple_permEntry uid).conseq (fun _ h => h) fun _ _ h => h.2

theorem keeps_effectivePermissions (uid : Uid) :
    Keeps (Quiet (Holding C)) (effectivePermissions uid) :=
  (keeps_permEntry uid).bind fun _ => .pure

theorem keeps_memberLevel (uid : Uid) : Keeps (Quiet (Holding C)) (memberLevel uid) :=
  (keeps_permEntry uid).bind fun _ => .pure

theorem AboutRoles.keeps_channelPermissions (hR : AboutRoles (Holding C)) (uid : Uid) (id : String) :
    Keeps (Quiet (Holding C)) (channelPermissions uid id) := by
  refine hR.quiet.keeps_getLayout.bind fun layout => .ite .pure ?_
  refine .get_bind fun d _ => ?_
  dsimp only
  split
  · exact Keeps.pure
  · refine Keeps.bind ?_ fun p => Keeps.bind ?_ fun _ => .pure
    case refine_2 => exact hR.quiet.keeps_modify fun _ => ⟨rfl, rfl, rfl⟩
    refine (keeps_permEntry uid).bind fun base => .ite .pure ?_
    refine (hR.quiet.keeps_getLayout.bind fun _ => .pure).bind fun source =>
      (hR.quiet.keeps_overwrites source).bind fun rows => .get_bind fun _ _ => Keeps.pure

end Queries

/-! ## Every operation -/

theorem quiet_roleState_perform {d : CommunityDb} (hd : Quiet RoleState d) (os : List Outcome)
    (op : DbOp) : Quiet RoleState (d.perform os op) := by
  have hR : AboutRoles RoleState := aboutRoles_holding fun _ _ _ _ => id
  have hf : Quiet RoleState (d.facing os) := ⟨hd.rel, hd.idle⟩
  have hat : Quiet (fun m t => RoleState m t ∧ t = d.tables) (d.facing os) := ⟨⟨hd.rel, rfl⟩, hd.idle⟩
  cases op with
  | createRole n c p m =>
    exact keeps_createRole_holding (fun _ _ _ _ _ _ => trivial) (fun _ _ _ _ _ _ _ _ _ => trivial)
      n c p m _ hf
  | updateRole r n c p i m => exact triple_updateRole_holding (fun _ _ _ _ _ => trivial) n c m _ hat
  | deleteRole r => exact triple_deleteRole_holding (fun _ _ _ _ _ _ _ _ _ => trivial) _ hat
  | setMemberRoles u rs => exact triple_setMemberRoles_holding (fun _ _ _ _ _ _ => trivial) _ hat
  | addMember u n i now => exact keeps_addMember_roleState u n i now _ hf
  | removeMember u => exact keeps_removeMember_roleState u _ hf
  | addBan u n bu b r e now => exact keeps_addBan_roleState u n bu b r e now _ hf
  | transferOwnership u => exact keeps_transferOwnership_roleState u _ hf
  | claimLegacy u n now => exact keeps_claimLegacy_roleState u n now _ hf
  | setOverwrite ow => exact hR.keeps_setOverwrite ow _ hf
  | syncChannelPermissions id => exact hR.keeps_syncChannelPermissions id _ hf
  | restoreChannelOverwrites id rows => exact hR.keeps_restoreChannelOverwrites id rows _ hf
  | setCategorySync id on => exact hR.keeps_setCategorySync id on _ hf
  | createChannel n t v c e => exact hR.keeps_createChannel n t v c e _ hf
  | deleteChannel id => exact hR.keeps_deleteChannel id _ hf
  | reorderChannels ids => exact hR.keeps_reorderChannels ids _ hf
  | grantVoicePass u id =>
    exact hR.quiet (d.facing os) _ rfl rfl rfl hf
  | revokeVoicePass u id => exact hR.keeps_revokeVoicePass u id _ hf
  | effectivePermissions u => exact keeps_effectivePermissions u _ hf
  | memberLevel u => exact keeps_memberLevel u _ hf
  | listOverwrites id =>
    exact ((hR.quiet.keeps_getLayout.bind fun _ => .pure).bind fun _ => hR.quiet.keeps_overwrites _) _ hf
  | channelPermissions u id => exact hR.keeps_channelPermissions u id _ hf

end CommunityDb
end Decibell
