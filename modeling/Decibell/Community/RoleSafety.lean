import Decibell.Community.RoleHandlers
import Decibell.Community.RoleState
import Mathlib.Data.List.Dedup

/-!
# No privilege escalation through roles

What members can do by role requests is confined to them
(`no_privilege_escalation`): after any requests of members of `S`, the owner not among
them, the members of `S` have between them no permission they did not have before, and
every role above all of them is there with the same permissions, holders and order.
-/

namespace Decibell

open Lib Lib.Conn Tables Perms List

namespace CommunityDb

open Memory

/-! ## What a handler knows when it decides -/

variable {C : Uid → Tables → Prop} {owner actor : Uid} {t₀ : Tables}

/-- The owner and the tables are `owner` and `t₀`. -/
def At (C : Uid → Tables → Prop) (owner : Uid) (t₀ : Tables) (m : Memory) (t : Tables) : Prop :=
  Holding (fun o t => o = owner ∧ C o t) m t ∧ t = t₀

theorem caching_at : Caching (At C owner t₀) where
  sound _ _ h := h.1.perm
  fill _ _ _ h hc := ⟨⟨hc, h.1.ok, h.1.extra⟩, h.2⟩

theorem rolesOnly_and_owner (hC : RolesOnly C) (owner : Uid) :
    RolesOnly fun o t => o = owner ∧ C o t :=
  fun o t t' ht h => ⟨h.1, hC o t t' ht h.2⟩

theorem Quiet.at {d : CommunityDb} (hd : Quiet (Holding C) d) :
    Quiet (At C d.ownerCache d.tables) d :=
  ⟨⟨⟨hd.rel.perm, hd.rel.ok, rfl, hd.rel.extra⟩, rfl⟩, hd.idle⟩

theorem keeps_of_at {α : Type} {p : DbM α}
    (h : ∀ owner t₀, Triple (Quiet (At C owner t₀)) p
      fun _ => Quiet (Holding fun o t => o = owner ∧ C o t)) : Keeps (Quiet (Holding C)) p := by
  intro d hd
  exact (h _ _ d hd.at).imp fun _ _ hm => ⟨hm.perm, hm.ok, hm.extra.2⟩

theorem triple_refuse {α : Type} (a : α) : Triple (Quiet (At C owner t₀)) (pure a : DbM α)
    fun _ => Quiet (Holding fun o t => o = owner ∧ C o t) :=
  .pure fun _ h => h.imp fun _ _ => And.left

theorem triple_permEntry_at (uid : Uid) : Triple (Quiet (At C owner t₀)) (permEntry uid)
    fun e d => e = t₀.permEntry owner uid ∧ Quiet (At C owner t₀) d := by
  refine (caching_at.triple_permEntry uid).conseq (fun _ h => h) fun e d h => ⟨?_, h.2⟩
  rw [h.1, h.2.rel.2, h.2.rel.1.extra.1]

theorem triple_effectivePermissions_at (uid : Uid) :
    Triple (Quiet (At C owner t₀)) (effectivePermissions uid)
      fun p d => p = (t₀.permEntry owner uid).permissions ∧ Quiet (At C owner t₀) d :=
  (triple_permEntry_at uid).bind_eq (.pure fun _ hd => ⟨rfl, hd⟩)

theorem triple_memberLevel_at (uid : Uid) : Triple (Quiet (At C owner t₀)) (memberLevel uid)
    fun l d => l = (t₀.permEntry owner uid).level ∧ Quiet (At C owner t₀) d :=
  (triple_permEntry_at uid).bind_eq (.pure fun _ hd => ⟨rfl, hd⟩)

theorem keeps_check {R : Memory → Tables → Prop} (hR : Caching R) (now : Int) (ctx : AuthCtx) :
    Keeps (Quiet R) (check now .manageRoles ctx) := by
  have hrule : Keeps (Quiet R) (checkAction ctx .manageRoles) := by
    refine Keeps.bind (Keeps.bind (Keeps.bind ?_ fun _ => .pure) fun _ => .pure) fun _ => .pure
    exact (hR.triple_permEntry _).conseq (fun _ h => h) fun _ _ h => h.2
  refine Keeps.bind ?_ fun until' => .ite hrule .pure
  refine Keeps.bind (.get_bind fun _ _ => Keeps.pure) fun m => ?_
  cases m with
  | none => exact .pure
  | some m => exact .pure

theorem triple_get_at {α : Type} {f : CommunityDb → DbM α} {Q : α → CommunityDb → Prop}
    (h : ∀ d, d.tables = t₀ → Triple (Quiet (At C owner t₀)) (f d) Q) :
    Triple (Quiet (At C owner t₀)) (get >>= f) Q :=
  .get_bind fun d hd => h d hd.rel.2

theorem keeps_addAudit (hC : RolesOnly C) (now : Int) (s : Session) (action : String)
    (targetUid : Uid) (target : Bytes) (channelId : String) (details : Bytes) :
    Keeps (Quiet (Holding C)) (addAudit now s action targetUid target channelId details) := by
  refine Keeps.bind (keeps_quiet_exec fun m t t' hm hs => ?_) fun _ => .pure
  obtain ⟨auditLog, -, rfl⟩ := Option.map_eq_some_iff.1 hs
  exact aboutRoles_holding hC m m t _ rfl rfl ⟨rfl, rfl, rfl⟩ hm

/-! ## One request -/

/-- What is said of the roles survives all the member can do. -/
def KeptBy (actor : Uid) (C : Uid → Tables → Prop) : Prop := ∀ o t t', t.RolesOk → t'.RolesOk →
  RoleStep (t.permEntry o actor).level (t.permEntry o actor).permissions t t' → C o t → C o t'

theorem level_nonneg (t : Tables) (owner uid : Uid) : 0 ≤ (t.permEntry owner uid).level := by
  rw [Tables.permEntry]
  split
  · exact Int.le_of_lt (by decide)
  · exact Int.le_max_right _ _

variable {now : Int} {s : Session}

theorem keeps_roleCreate (hR : RolesOnly C) (hC : KeptBy s.uid C) (name : Bytes) (color : BitVec 32)
    (permissions : Permissions) (manageEachOther : Bool) :
    Keeps (Quiet (Holding C)) (roleCreate now s name color permissions manageEachOther) := by
  refine (keeps_check caching_holding now _).bind fun auth => .ite .pure ?_
  refine (keeps_effectivePermissions s.uid).bind fun perms => .ite .pure ?_
  refine .get_bind fun d _ => .ite (fun _ => Keeps.pure) fun _ => .ite (fun _ => Keeps.pure) fun _ => ?_
  refine Keeps.bind (keeps_createRole_holding ?_ ?_ _ _ _ _) fun created => ?_
  · exact fun o t t' hok hc hs => hC o t t' hok (shiftAll_rolesOk hok hs)
      (roleStep_shiftAll hok (level_nonneg t o s.uid) hs) hc
  · exact fun o t t' role hd hp hok hc hs => hC o t t' hok (insertRole_rolesOk hd hp hok hs)
      (roleStep_insertRole hd hok hs) hc
  · cases created with
    | none => exact .pure
    | some role => exact Keeps.bind (keeps_addAudit hR _ _ _ _ _ _ _) fun _ => .pure

theorem keeps_roleUpdate (hR : RolesOnly C) (hC : KeptBy s.uid C) (roleId : Int) (name : Bytes)
    (color : BitVec 32) (permissions : Permissions) (position : Int) (manageEachOther : Bool) :
    Keeps (Quiet (Holding C))
      (roleUpdate now s roleId name color permissions position manageEachOther) := by
  refine keeps_of_at fun owner t₀ => ?_
  refine (keeps_check caching_at now _).seq fun auth => .ite (fun _ => triple_refuse _) fun _ => ?_
  refine triple_get_at fun d hd => ?_
  rw [hd]
  cases hf : t₀.findRole roleId with
  | none => exact triple_refuse _
  | some role =>
  obtain ⟨hr, hrid⟩ := Table.find?_eq_some.1 hf
  refine (triple_memberLevel_at s.uid).bind_eq (.ite (fun _ => triple_refuse _) fun hbelow =>
    .ite (fun _ => triple_refuse _) fun hnew => ?_)
  refine (triple_effectivePermissions_at s.uid).bind_eq (.ite (fun _ => triple_refuse _)
    fun hbits => ?_)
  refine Triple.bind (triple_updateRole_holding ?step _ _ _) fun ok => .ite (fun _ => ?_) fun _ => Keeps.pure
  case step =>
    rintro o t' hok hu ⟨rfl, hc⟩
    refine ⟨rfl, hC o t₀ t' hok (hu.rolesOk hok) ?_ hc⟩
    refine hu.roleStep hok (level_nonneg _ _ _) fun r hr' hri => ?_
    obtain rfl := role_unique hr' hr (hri.trans hrid.symm)
    refine ⟨fun hrd => ?_, bits_subset_of_xor (not_not.1 hbits)⟩
    simp only [hrd, Bool.not_false, true_and] at hbelow hnew
    omega
  · exact .get_bind fun _ _ => Keeps.bind (keeps_addAudit (rolesOnly_and_owner hR owner) _ _ _ _ _ _ _)
      fun _ => .pure

theorem keeps_roleDelete (hR : RolesOnly C) (hC : KeptBy s.uid C) (roleId : Int) :
    Keeps (Quiet (Holding C)) (roleDelete now s roleId) := by
  refine keeps_of_at fun owner t₀ => ?_
  refine (keeps_check caching_at now _).seq fun auth => .ite (fun _ => triple_refuse _) fun _ => ?_
  refine triple_get_at fun d hd => ?_
  rw [hd]
  cases hf : t₀.findRole roleId with
  | none => exact triple_refuse _
  | some role =>
  obtain ⟨hr, hrid⟩ := Table.find?_eq_some.1 hf
  refine .ite (fun _ => triple_refuse _) fun _ => ?_
  refine (triple_memberLevel_at s.uid).bind_eq (.ite (fun _ => triple_refuse _) fun hbelow => ?_)
  refine Triple.bind (triple_deleteRole_holding ?step) fun ok => .ite (fun _ => ?_) fun _ => Keeps.pure
  case step =>
    rintro o r t' hok hr' hri hrd hs ⟨rfl, hc⟩
    obtain rfl := role_unique hr' hr (hri.trans hrid.symm)
    have hpos := hok.others r hr' hrd
    refine ⟨rfl, hC o t₀ t' hok (delete_rolesOk hpos hok hs) ?_ hc⟩
    exact roleStep_delete hok (level_nonneg _ _ _) hr' hri rfl hpos (not_le.1 hbelow) hs
  · exact Keeps.bind (keeps_addAudit (rolesOnly_and_owner hR owner) _ _ _ _ _ _ _) fun _ => .pure

theorem mem_idSet {ids : List Int} {id : Int} : id ∈ idSet ids ↔ id ∈ ids := by
  rw [idSet, (perm_insertionSort _ _).mem_iff, mem_dedup]

theorem mem_memberRoleIds {t : Tables} {uid : Uid} {r : DbRole} (hr : r ∈ t.roles.rows) :
    r.id ∈ t.memberRoleIds uid ↔ ⟨uid, r.id⟩ ∈ t.memberRoles.rows := by
  rw [memberRoleIds, mem_map]
  constructor
  · rintro ⟨r', hr', hid⟩
    obtain ⟨hr', ha⟩ := mem_rolesOf.1 ((perm_insertionSort _ _).mem_iff.1 hr')
    rwa [role_unique hr' hr hid] at ha
  · exact fun ha => ⟨r, (perm_insertionSort _ _).mem_iff.2 (mem_rolesOf.2 ⟨hr, ha⟩), rfl⟩

theorem of_refuseAdded {t : Tables} {level : Int} {perms : Permissions} {id : Int}
    (h : t.refuseAdded level perms id = none) : ∃ r ∈ t.roles.rows, r.id = id ∧
      r.position < level ∧ bits r.permissions ⊆ bits perms := by
  rw [refuseAdded] at h
  cases hf : t.findRole id with
  | none => rw [hf] at h; cases h
  | some r =>
    obtain ⟨hr, hid⟩ := Table.find?_eq_some.1 hf
    simp only [hf] at h
    split_ifs at h with hd hl hp
    exact ⟨r, hr, hid, not_le.1 hl, bits_subset_iff.1 (not_not.1 hp)⟩

theorem of_refuseRemoved {t : Tables} {level : Int} {r : DbRole} (hr : r ∈ t.roles.rows)
    (h : t.refuseRemoved level r.id = none) : r.position < level := by
  rw [refuseRemoved, findRole, Table.find?_eq_some.2 ⟨hr, rfl⟩] at h
  dsimp only at h
  split_ifs at h with hd hl
  exact not_le.1 hl

theorem keeps_memberRolesUpdate (hR : RolesOnly C) (hC : KeptBy s.uid C) (uid : Uid)
    (roleIds : List Int) : Keeps (Quiet (Holding C)) (memberRolesUpdate now s uid roleIds) := by
  refine keeps_of_at fun owner t₀ => ?_
  refine (keeps_check caching_at now _).seq fun auth => .ite (fun _ => triple_refuse _) fun _ => ?_
  have hresolve : Keeps (Quiet (At C owner t₀)) (resolveMember uid) :=
    .ite .pure (.get_bind fun _ _ => Keeps.pure)
  refine hresolve.seq fun target => ?_
  cases target with
  | none => exact triple_refuse _
  | some target =>
  refine (triple_memberLevel_at s.uid).bind_eq (triple_get_at fun d hd => ?_)
  refine (triple_effectivePermissions_at s.uid).bind_eq (triple_get_at fun d' hd' => ?_)
  rw [hd, hd']
  dsimp only
  split
  · exact triple_refuse _
  rename_i hnone
  obtain ⟨hadded, hremoved⟩ := Option.or_eq_none_iff.1 hnone
  rw [findSome?_eq_none_iff] at hadded hremoved
  refine Triple.bind (triple_setMemberRoles_holding ?step) fun ok => .ite (fun _ => ?_)
    fun _ => Keeps.pure
  case step =>
    rintro o t' hok hok' hs ⟨rfl, hc⟩
    refine ⟨rfl, hC o t₀ t' hok hok' (roleStep_assign (fun id hid => ?_) (fun r hr hl ha => ?_) hs) hc⟩
    · -- an id asked for is one the member has, or one that was looked at
      by_cases hcur : id ∈ idSet (t₀.memberRoleIds target.uid)
      · obtain ⟨r, hr, rfl⟩ := mem_map.1 (mem_idSet.1 hcur)
        exact .inl (mem_rolesOf.1 ((perm_insertionSort _ _).mem_iff.1 hr)).2
      · exact .inr (of_refuseAdded (hadded id (mem_filter.2 ⟨hid, by simpa using hcur⟩)))
    · by_contra hreq
      have hcur := mem_idSet.2 ((mem_memberRoleIds hr).2 ha)
      have := of_refuseRemoved hr (hremoved r.id (mem_filter.2 ⟨hcur, by simpa using hreq⟩))
      omega
  · refine .get_bind fun d'' _ => Keeps.bind ?_ fun _ => .pure
    exact keeps_addAudit (rolesOnly_and_owner hR owner) _ _ _ _ _ _ _

theorem keeps_handleRole (hR : RolesOnly C) (hC : KeptBy s.uid C) (req : RoleRequest) :
    Keeps (Quiet (Holding C)) (handleRole now s req) := by
  cases req with
  | create n c p m => exact keeps_roleCreate hR hC n c p m
  | update r n c p i m => exact keeps_roleUpdate hR hC r n c p i m
  | delete r => exact keeps_roleDelete hR hC r
  | assign u rs => exact keeps_memberRolesUpdate hR hC u rs

/-! ## Runs -/

/-- An operation of the database, or a role request. -/
inductive ServerAct
  | op (op : DbOp)
  | request (now : Int) (s : Session) (req : RoleRequest)

/-- The object after a role request with these answers. -/
def serveRole (d : CommunityDb) (outcomes : List Outcome) (now : Int) (s : Session)
    (req : RoleRequest) : CommunityDb :=
  ((handleRole now s req).run (d.facing outcomes)).2

/-- The object after either. -/
def act (d : CommunityDb) (outcomes : List Outcome) : ServerAct → CommunityDb
  | .op op => d.perform outcomes op
  | .request now s req => d.serveRole outcomes now s req

/-- The runs of a server, from when it opens its database. -/
def serverSystem : System CommunityDb (List Outcome × ServerAct) where
  init d := d.Opened ∧ d.tables.RolesOk
  step d a d' := d' = d.act a.1 a.2

/-- The runs of role requests of members of `S`, from `d₀`. -/
def requestsOf (S : Set Uid) (d₀ : CommunityDb) :
    System CommunityDb (List Outcome × Int × Session × RoleRequest) where
  init d := d = d₀
  step d a d' := a.2.2.1.uid ∈ S ∧ d' = d.serveRole a.1 a.2.1 a.2.2.1 a.2.2.2

theorem quiet_serveRole {d : CommunityDb} (hR : RolesOnly C) (hC : KeptBy s.uid C)
    (hd : Quiet (Holding C) d) (outcomes : List Outcome) (req : RoleRequest) :
    Quiet (Holding C) (d.serveRole outcomes now s req) :=
  keeps_handleRole hR hC req (d.facing outcomes) ⟨hd.rel, hd.idle⟩

theorem roleState_of_reachable {d : CommunityDb} (h : serverSystem.Reachable d) :
    Quiet RoleState d := by
  refine System.reachable_invariant (I := Quiet RoleState) ?_ ?_ h
  · rintro d ⟨ho, hr⟩
    exact ⟨⟨ho.perm ▸ Memo.sound_empty, hr, trivial⟩, ho.idle⟩
  · rintro d ⟨outcomes, op | ⟨now, s, req⟩⟩ _ hd rfl
    · exact quiet_roleState_perform hd outcomes op
    · exact quiet_serveRole (fun _ _ _ _ _ => trivial) (fun _ _ _ _ _ _ _ => trivial) hd outcomes req

variable {S : Set Uid}

theorem rolesOnly_confined : RolesOnly fun o t => o = owner ∧ Confined owner S t₀ t := by
  rintro o t t' ht ⟨rfl, hc⟩
  have hsame : Confined o S t t' := by
    have habove : t'.above o S = t.above o S := by
      simp only [above, ht.roles, ht.permEntry]
    refine ⟨?_, fun r hr => ⟨r, habove ▸ hr, rfl, rfl⟩, fun r hr uid => by rw [ht.memberRoles], ?_⟩
    · simp only [heldBits, ht.permEntry, subset_rfl]
    · intro r hr q hq r' hr' q' hq' hri hqi
      rw [role_unique (ht.roles ▸ hr') hr.1 hri, role_unique (ht.roles ▸ hq') hq.1 hqi]
  exact ⟨rfl, hc.trans hsame⟩

theorem keptBy_confined (hS : owner ∉ S) (ha : actor ∈ S) :
    KeptBy actor fun o t => o = owner ∧ Confined owner S t₀ t := by
  rintro o t t' ht ht' hstep ⟨rfl, hc⟩
  exact ⟨rfl, hc.trans (hstep.confined ht ht' hS ha rfl rfl)⟩

/-- The permissions that some member of `S` is found to have. -/
def granted (d : CommunityDb) (S : Set Uid) : Set Nat :=
  ⋃ uid ∈ S, bits ((effectivePermissions uid).run d).1

theorem granted_eq {d : CommunityDb} (hd : Quiet (Holding C) d) :
    d.granted S = d.tables.heldBits d.ownerCache S := by
  refine Set.iUnion₂_congr fun uid _ => congrArg bits ?_
  exact (triple_effectivePermissions_at uid d hd.at).1

/-- Members of `S` gain no permission by role requests, and the roles above them all stay as they
    are. -/
theorem no_privilege_escalation {d₀ d : CommunityDb} (h₀ : serverSystem.Reachable d₀)
    (hS : d₀.ownerCache ∉ S) (h : (requestsOf S d₀).Reachable d) :
    d.granted S ⊆ d₀.granted S ∧ Confined d₀.ownerCache S d₀.tables d.tables := by
  have hinit := roleState_of_reachable h₀
  have hd : Quiet (Holding fun o t => o = d₀.ownerCache ∧
      Confined d₀.ownerCache S d₀.tables t) d := by
    refine System.reachable_invariant (fun d hd => ?_) ?_ h
    · obtain rfl : d = d₀ := hd
      exact ⟨⟨hinit.rel.perm, hinit.rel.ok, rfl, .refl⟩, hinit.idle⟩
    · rintro d ⟨outcomes, now, s, req⟩ _ hd ⟨hs, rfl⟩
      exact quiet_serveRole rolesOnly_confined (keptBy_confined hS hs) hd outcomes req
  have hc := hd.rel.extra.2
  rw [granted_eq hd, granted_eq hinit, hd.rel.extra.1]
  exact ⟨hc.held, hc⟩

/-- Moderators are below administrators: 2 is a moderator, 3 an administrator, 4 neither. -/
def moderated : CommunityDb where
  ownerCache := 1
  conn := { tables := {
    serverMeta := ⟨[⟨"owner_uid", "1"⟩], by decide⟩
    members := ⟨[⟨1, "ada", 0, [], 0, 0, false, false⟩, ⟨2, "bob", 0, [], 0, 0, false, false⟩,
      ⟨3, "eve", 0, [], 0, 0, false, false⟩, ⟨4, "joe", 0, [], 0, 0, false, false⟩], by decide⟩
    roles := ⟨[
      { id := 1, name := [], position := 0, permissions := Perms.kViewChannel, isDefault := true },
      { id := 2, name := [109], position := 1, permissions := Perms.kManageRoles },
      { id := 3, name := [97], position := 2, permissions := Perms.kAdministrator }], by decide⟩
    memberRoles := ⟨[⟨2, 2⟩, ⟨3, 3⟩], by decide⟩
    roleSequence := 3 } }

theorem reachable_moderated : serverSystem.Reachable moderated := by
  refine .init ⟨⟨rfl, by decide, rfl, rfl, rfl, nofun⟩, ?_⟩
  constructor <;> decide

/-- The moderator creates a role, below the moderators' own. -/
def roleCreated : CommunityDb :=
  moderated.serveRole [] 0 ⟨2, []⟩ (.create [104] 0 Perms.kManageRoles false)

/-- The moderator gives the new role to 4. -/
def roleGiven : CommunityDb := roleCreated.serveRole [] 0 ⟨2, []⟩ (.assign 4 [4])

theorem moderators_are_confined : ⟨4, 4⟩ ∈ roleGiven.tables.memberRoles.rows ∧
    roleGiven.granted {2, 4} ⊆ moderated.granted {2, 4} ∧
      Confined 1 {2, 4} moderated.tables roleGiven.tables := by
  refine ⟨by decide, no_privilege_escalation (d := roleGiven) reachable_moderated ?_ ?_⟩
  · rintro (h | h) <;> exact absurd h (by decide)
  · have h₁ : (requestsOf {2, 4} moderated).Reachable roleCreated :=
      .step ([], 0, ⟨2, []⟩, _) (.init rfl) ⟨.inl rfl, rfl⟩
    exact .step ([], 0, ⟨2, []⟩, _) h₁ ⟨.inl rfl, rfl⟩

end CommunityDb
end Decibell
