import Decibell.Community.Hierarchy

/-!
# What the role operations do to the tables

The contents after the statements of each role operation, and that these are a
`RoleStep` for a member the operation is within reach of: one whose level is above
the roles it moves and who has the permissions it gives.
-/

namespace Decibell

open Lib Lib.Conn Perms List

namespace Tables

variable {t t' : Tables} {level : Int} {perms : Permissions}

/-! ## Changes of the rows of roles -/

section Image

variable {keep : DbRole → Bool} {g : DbRole → DbRole}

/-- The roles that `keep` keeps, changed by `g` in neither id nor default. -/
structure Image (keep : DbRole → Bool) (g : DbRole → DbRole) (t t' : Tables) : Prop where
  rows : t'.roles.rows = (t.roles.rows.filter keep).map g
  sub : t'.memberRoles.rows ⊆ t.memberRoles.rows
  sequence : t'.roleSequence = t.roleSequence
  id : ∀ r, (g r).id = r.id
  isDefault : ∀ r, (g r).isDefault = r.isDefault

theorem Image.mem (h : Image keep g t t') {r' : DbRole} :
    r' ∈ t'.roles.rows ↔ ∃ r ∈ t.roles.rows, keep r = true ∧ r' = g r := by
  rw [h.rows, mem_map]
  exact ⟨fun ⟨r, hr, h⟩ => ⟨r, (mem_filter.1 hr).1, (mem_filter.1 hr).2, h.symm⟩,
    fun ⟨r, hr, hk, h⟩ => ⟨r, mem_filter.2 ⟨hr, hk⟩, h.symm⟩⟩

theorem Image.eq (h : Image keep g t t') {r r' : DbRole} (hr : r ∈ t.roles.rows)
    (hr' : r' ∈ t'.roles.rows) (hid : r'.id = r.id) : r' = g r := by
  obtain ⟨s, hs, -, rfl⟩ := h.mem.1 hr'
  rw [role_unique hs hr ((h.id s).symm.trans hid)]

theorem Image.rolesOk (h : Image keep g t t') (ht : t.RolesOk)
    (hdefault : ∀ r ∈ t.roles.rows, r.isDefault = true → (g r).position = r.position)
    (hothers : ∀ r ∈ t.roles.rows, r.isDefault = false → 1 ≤ (g r).position) : t'.RolesOk where
  default r' hr' hd := by
    obtain ⟨r, hr, -, rfl⟩ := h.mem.1 hr'
    rw [h.isDefault] at hd
    exact (hdefault r hr hd).trans (ht.default r hr hd)
  others r' hr' hd := by
    obtain ⟨r, hr, -, rfl⟩ := h.mem.1 hr'
    exact hothers r hr (h.isDefault r ▸ hd)
  ids r' hr' := by
    obtain ⟨r, hr, -, rfl⟩ := h.mem.1 hr'
    rw [h.id, h.sequence]
    exact ht.ids r hr
  assigned a ha := h.sequence ▸ ht.assigned a (h.sub ha)

theorem Image.roleStep (h : Image keep g t t')
    (hbits : ∀ r ∈ t.roles.rows, bits (g r).permissions ⊆ bits r.permissions ∪ bits perms)
    (hkept : ∀ r ∈ t.roles.rows, level < r.position → keep r = true ∧
      (g r).permissions = r.permissions ∧
      ∀ uid, ⟨uid, r.id⟩ ∈ t.memberRoles.rows → ⟨uid, r.id⟩ ∈ t'.memberRoles.rows)
    (horder : ∀ r ∈ t.roles.rows, ∀ s ∈ t.roles.rows, level < s.position →
      r.position < s.position → (g r).position < (g s).position)
    (htied : ∀ r ∈ t.roles.rows, ∀ s ∈ t.roles.rows, level < s.position →
      s.position ≤ r.position → (g s).position ≤ (g r).position) : RoleStep level perms t t' where
  origin r' hr' := by
    obtain ⟨r, hr, -, rfl⟩ := h.mem.1 hr'
    exact .inr ⟨r, hr, h.id r, h.isDefault r, hbits r hr⟩
  given a ha := .inl (h.sub ha)
  kept r hr hl := by
    obtain ⟨hk, hp, -⟩ := hkept r hr hl
    exact ⟨g r, h.mem.2 ⟨r, hr, hk, rfl⟩, h.id r, hp⟩
  holders r hr hl uid := ⟨fun ha => h.sub ha, (hkept r hr hl).2.2 uid⟩
  order r hr s hs r' hr' s' hs' hri hsi hl hlt := by
    rw [h.eq hr hr' hri, h.eq hs hs' hsi]
    exact horder r hr s hs hl hlt
  tied r hr s hs r' hr' s' hs' hri hsi hl hle := by
    rw [h.eq hr hr' hri, h.eq hs hs' hsi]
    exact htied r hr s hs hl hle

end Image

/-! ## Creating a role -/

def moveUp (r : DbRole) : DbRole :=
  if ! r.isDefault && true then { r with position := r.position + 1 } else r

theorem moveUp_position (r : DbRole) :
    (moveUp r).position = if r.isDefault then r.position else r.position + 1 := by
  cases hd : r.isDefault <;> simp [moveUp, hd]

theorem image_shiftAll (h : shiftRoles (fun _ => true) 1 t = some t') :
    Image (fun _ => true) moveUp t t' := by
  cases h
  refine ⟨by rw [filter_true]; rfl, List.Subset.refl _, rfl, fun r => ?_, fun r => ?_⟩ <;>
    rw [moveUp] <;> split <;> rfl

theorem shiftAll_rolesOk (ht : t.RolesOk) (h : shiftRoles (fun _ => true) 1 t = some t') :
    t'.RolesOk := by
  refine (image_shiftAll h).rolesOk ht (fun r hr hd => ?_) fun r hr hd => ?_ <;>
    rw [moveUp_position, hd]
  · rfl
  · have := ht.others r hr hd
    simp only [Bool.false_eq_true, if_false]
    omega

theorem roleStep_shiftAll (ht : t.RolesOk) (hl : 0 ≤ level)
    (h : shiftRoles (fun _ => true) 1 t = some t') : RoleStep level perms t t' := by
  have hnd : ∀ r ∈ t.roles.rows, level < r.position → r.isDefault = false := by
    intro r hr hlr
    by_contra hd
    have := ht.default r hr (by simpa using hd)
    omega
  refine (image_shiftAll h).roleStep (fun r hr => ?_) (fun r hr _ => ⟨rfl, ?_, fun _ ha => ?_⟩)
    (fun r hr s hs hls hlt => ?_) fun r hr s hs hls hle => ?_
  · rw [moveUp]
    split <;> exact Set.subset_union_left
  · rw [moveUp]
    split <;> rfl
  · cases h
    exact ha
  · rw [moveUp_position, moveUp_position, hnd s hs hls]
    split <;> simp only [Bool.false_eq_true, if_false] <;> omega
  · rw [moveUp_position, moveUp_position, hnd s hs hls, hnd r hr (by omega)]
    simp only [Bool.false_eq_true, if_false]
    omega

theorem insertRole_eq {role : DbRole} (h : insertRole role t = some t') :
    t'.roles.rows = t.roles.rows ++ [{ role with id := t.nextRoleId }] ∧
      t'.memberRoles = t.memberRoles ∧ t'.roleSequence = t.nextRoleId := by
  obtain ⟨roles, hr, rfl⟩ := Option.map_eq_some_iff.1 h
  exact ⟨Table.rows_of_insert hr, rfl, rfl⟩

theorem le_foldl_max (l : List Int) (a : Int) : a ≤ l.foldl max a ∧ ∀ x ∈ l, x ≤ l.foldl max a := by
  induction l generalizing a with
  | nil => simp
  | cons b l ih =>
    obtain ⟨ha, hl⟩ := ih (max a b)
    refine ⟨by rw [foldl_cons]; omega, fun x hx => ?_⟩
    rcases mem_cons.1 hx with rfl | hx
    · rw [foldl_cons]
      omega
    · exact hl x hx

theorem sequence_lt_nextRoleId (t : Tables) : t.roleSequence < t.nextRoleId := by
  have := (le_foldl_max t.roles.keys t.roleSequence).1
  rw [nextRoleId]
  omega

theorem insertRole_rolesOk {role : DbRole} (hd : role.isDefault = false) (hp : role.position = 1)
    (ht : t.RolesOk) (h : insertRole role t = some t') : t'.RolesOk := by
  obtain ⟨hr, hm, hs⟩ := insertRole_eq h
  have hseq := sequence_lt_nextRoleId t
  have hmem : ∀ r ∈ t'.roles.rows, r ∈ t.roles.rows ∨ r = { role with id := t.nextRoleId } := by
    intro r hr'
    rw [hr] at hr'
    simpa using hr'
  constructor
  · intro r hr' hrd
    rcases hmem r hr' with hr' | rfl
    · exact ht.default r hr' hrd
    · exact absurd (hd.symm.trans hrd) Bool.false_ne_true
  · intro r hr' hrd
    rcases hmem r hr' with hr' | rfl
    · exact ht.others r hr' hrd
    · exact hp.ge
  · intro r hr'
    rw [hs]
    rcases hmem r hr' with hr' | rfl
    · exact (ht.ids r hr').trans hseq.le
    · exact le_rfl
  · intro a ha
    rw [hs]
    exact (ht.assigned a (hm ▸ ha)).trans hseq.le

theorem roleStep_insertRole {role : DbRole} (hd : role.isDefault = false) (ht : t.RolesOk)
    (h : insertRole role t = some t') : RoleStep level perms t t' := by
  obtain ⟨hr, hm, -⟩ := insertRole_eq h
  have hseq := sequence_lt_nextRoleId t
  -- a row with the id of an old role is that role
  have hold : ∀ r ∈ t.roles.rows, ∀ r' ∈ t'.roles.rows, r'.id = r.id → r' = r := by
    intro r hr₀ r' hr' hid
    rw [hr, mem_append, mem_singleton] at hr'
    rcases hr' with hr' | rfl
    · exact role_unique hr' hr₀ hid
    · have := ht.ids r hr₀
      dsimp only at hid
      omega
  constructor
  · intro r' hr'
    rw [hr, mem_append, mem_singleton] at hr'
    rcases hr' with hr' | rfl
    · exact .inr ⟨r', hr', rfl, rfl, Set.subset_union_left⟩
    · refine .inl ⟨hd, fun uid ha => ?_⟩
      have := ht.assigned _ (hm ▸ ha)
      dsimp only at this
      omega
  · exact fun a ha => .inl (hm ▸ ha)
  · exact fun r hr₀ _ => ⟨r, hr ▸ mem_append_left _ hr₀, rfl, rfl⟩
  · exact fun r _ _ uid => by rw [hm]
  · intro r hr₀ s hs r' hr' s' hs' hri hsi _ hlt
    rwa [hold r hr₀ r' hr' hri, hold s hs s' hs' hsi]
  · intro r hr₀ s hs r' hr' s' hs' hri hsi _ hle
    rwa [hold r hr₀ r' hr' hri, hold s hs s' hs' hsi]

/-! ## Changing a role -/

/-- What the list move does to a role that is not the one moved. -/
def slide (old new : Int) (r : DbRole) : DbRole :=
  if r.isDefault then r
  else if old < r.position ∧ r.position ≤ new then { r with position := r.position - 1 }
  else if new ≤ r.position ∧ r.position < old then { r with position := r.position + 1 }
  else r

/-- The role `roleId` is changed by `f`, the others slide. -/
def moved (roleId old new : Int) (f : DbRole → DbRole) (r : DbRole) : DbRole :=
  if r.id = roleId then f (slide old new r) else slide old new r

section Slide

variable (old new : Int) (r : DbRole)

theorem slide_id : (slide old new r).id = r.id := by
  rw [slide]
  split_ifs <;> rfl

theorem slide_isDefault : (slide old new r).isDefault = r.isDefault := by
  rw [slide]
  split_ifs <;> rfl

theorem slide_permissions : (slide old new r).permissions = r.permissions := by
  rw [slide]
  split_ifs <;> rfl

theorem slide_position : (slide old new r).position = r.position ∨
    r.isDefault = false ∧
      (old < r.position ∧ r.position ≤ new ∧ (slide old new r).position = r.position - 1 ∨
        new ≤ r.position ∧ r.position < old ∧ (slide old new r).position = r.position + 1) := by
  rw [slide]
  split_ifs with hd hdown hup
  · exact .inl rfl
  · exact .inr ⟨by simpa using hd, .inl ⟨hdown.1, hdown.2, rfl⟩⟩
  · exact .inr ⟨by simpa using hd, .inr ⟨hup.1, hup.2, rfl⟩⟩
  · exact .inl rfl

end Slide

theorem applyAll_moveRoles (old new : Int) (t : Tables) : ∃ t',
    applyAll (CommunityDb.moveRoles old new) t = some t' ∧ t'.roles.rows = t.roles.rows.map (slide old new) ∧
      t'.memberRoles = t.memberRoles ∧ t'.roleSequence = t.roleSequence := by
  rw [CommunityDb.moveRoles]
  split_ifs with heq hlt
  · refine ⟨t, rfl, ?_, rfl, rfl⟩
    conv_lhs => rw [← map_id t.roles.rows]
    refine map_congr_left fun r _ => ?_
    rw [slide, heq]
    split_ifs <;> first | rfl | omega
  · refine ⟨_, rfl, map_congr_left fun r _ => ?_, rfl, rfl⟩
    rw [slide]
    cases hd : r.isDefault with
    | true => simp [hd]
    | false =>
      simp only [hd, Bool.not_false, Bool.true_and, Bool.and_eq_true, decide_eq_true_eq,
        Bool.false_eq_true, if_false]
      split_ifs <;> first | rfl | omega
  · refine ⟨_, rfl, map_congr_left fun r _ => ?_, rfl, rfl⟩
    rw [slide]
    cases hd : r.isDefault with
    | true => simp [hd]
    | false =>
      simp only [hd, Bool.not_false, Bool.true_and, Bool.and_eq_true, decide_eq_true_eq,
        Bool.false_eq_true, if_false]
      split_ifs <;> first | rfl | omega

theorem image_update {roleId old new : Int} {f : DbRole → DbRole} (hid : ∀ r, (f r).id = r.id)
    (hdef : ∀ r, (f r).isDefault = r.isDefault)
    (h : applyAll (CommunityDb.moveRoles old new ++ [updateRole roleId f hid]) t = some t') :
    Image (fun _ => true) (moved roleId old new f) t t' := by
  obtain ⟨u, hu, hrows, hm, hs⟩ := applyAll_moveRoles old new t
  rw [applyAll, foldlM_append] at h
  obtain ⟨u', hu', h⟩ := Option.bind_eq_some_iff.1 h
  obtain rfl : u = u' := Option.some.inj (hu.symm.trans hu')
  cases h
  refine ⟨?_, hm ▸ List.Subset.refl _, hs, fun r => ?_, fun r => ?_⟩
  · rw [filter_true]
    change u.roles.rows.map _ = _
    rw [hrows, map_map]
    refine map_congr_left fun r _ => ?_
    simp only [Function.comp_apply, moved, slide_id, decide_eq_true_eq]
  · rw [moved]
    split
    · rw [hid, slide_id]
    · exact slide_id _ _ _
  · rw [moved]
    split
    · rw [hdef, slide_isDefault]
    · exact slide_isDefault _ _ _

section Update

variable {roleId old new : Int} {f : DbRole → DbRole}

theorem moved_position {position : Int} (hpos : ∀ r, (f r).position = position) (r : DbRole) :
    (moved roleId old new f r).position =
      if r.id = roleId then position else (slide old new r).position := by
  rw [moved]
  split
  · exact hpos _
  · rfl

theorem update_rolesOk (hid : ∀ r, (f r).id = r.id) (hdef : ∀ r, (f r).isDefault = r.isDefault)
    (hpos : ∀ r, (f r).position = new) (ht : t.RolesOk) {role : DbRole} (hr : role ∈ t.roles.rows)
    (hrid : role.id = roleId) (hrd : role.isDefault = false) (hold : 1 ≤ old) (hnew : 1 ≤ new)
    (h : applyAll (CommunityDb.moveRoles old new ++ [updateRole roleId f hid]) t = some t') :
    t'.RolesOk := by
  refine (image_update hid hdef h).rolesOk ht (fun r hr' hd => ?_) fun r hr' hd => ?_ <;>
    rw [moved_position hpos]
  · have hne : r.id ≠ roleId := fun h => by
      rw [role_unique hr' hr (h.trans hrid.symm), hrd] at hd
      cases hd
    rw [if_neg hne, slide, if_pos hd]
  · split
    · exact hnew
    · have := ht.others r hr' hd
      rcases slide_position old new r with hs | ⟨-, ⟨_, _, hs⟩ | ⟨_, _, hs⟩⟩ <;> omega

theorem roleStep_update (hid : ∀ r, (f r).id = r.id) (hdef : ∀ r, (f r).isDefault = r.isDefault)
    (hpos : ∀ r, (f r).position = new) {role : DbRole} (hr : role ∈ t.roles.rows)
    (hrid : role.id = roleId) (hrp : role.position = old) (hold : old < level) (hnew : new < level)
    (hbits : ∀ r, r.permissions = role.permissions →
      bits (f r).permissions ⊆ bits role.permissions ∪ bits perms)
    (h : applyAll (CommunityDb.moveRoles old new ++ [updateRole roleId f hid]) t = some t') :
    RoleStep level perms t t' := by
  have himage := image_update hid hdef h
  have hne : ∀ r ∈ t.roles.rows, level < r.position → r.id ≠ roleId := by
    intro r hr' hl hri
    rw [role_unique hr' hr (hri.trans hrid.symm)] at hl
    omega
  -- what is above the member stays in its place
  have hstay : ∀ r ∈ t.roles.rows, level < r.position →
      (moved roleId old new f r).position = r.position := by
    intro r hr' hl
    rw [moved_position hpos, if_neg (hne r hr' hl)]
    rcases slide_position old new r with hs | ⟨-, ⟨_, _, hs⟩ | ⟨_, _, hs⟩⟩ <;> omega
  refine himage.roleStep (fun r hr' => ?_) (fun r hr' hl => ⟨rfl, ?_, fun uid ha => ?_⟩)
    (fun r hr' s hs hl hlt => ?_) fun r hr' s hs hl hle => ?_
  · rw [moved]
    split
    · rename_i hri
      obtain rfl := role_unique hr' hr (hri.trans hrid.symm)
      exact hbits _ (slide_permissions _ _ _)
    · rw [slide_permissions]
      exact Set.subset_union_left
  · rw [moved, if_neg (hne r hr' hl), slide_permissions]
  · obtain ⟨u, hu, -, hm, -⟩ := applyAll_moveRoles old new t
    rw [applyAll, foldlM_append] at h
    obtain ⟨u', hu', h⟩ := Option.bind_eq_some_iff.1 h
    obtain rfl : u = u' := Option.some.inj (hu.symm.trans hu')
    cases h
    exact hm ▸ ha
  · rw [hstay s hs hl, moved_position hpos]
    split
    · omega
    · rcases slide_position old new r with hs | ⟨-, ⟨_, _, hs⟩ | ⟨_, _, hs⟩⟩ <;> omega
  · rw [hstay s hs hl, hstay r hr' (by omega)]
    exact hle

theorem image_change {roleId : Int} {f : DbRole → DbRole} (hid : ∀ r, (f r).id = r.id)
    (hdef : ∀ r, (f r).isDefault = r.isDefault) (h : updateRole roleId f hid t = some t') :
    Image (fun _ => true) (fun r => if r.id = roleId then f r else r) t t' := by
  cases h
  refine ⟨?_, List.Subset.refl _, rfl, fun r => ?_, fun r => ?_⟩
  · rw [filter_true]
    exact map_congr_left fun r _ => by simp only [decide_eq_true_eq]
  · split
    · exact hid r
    · rfl
  · split
    · exact hdef r
    · rfl

theorem change_rolesOk (hid : ∀ r, (f r).id = r.id) (hdef : ∀ r, (f r).isDefault = r.isDefault)
    (hpos : ∀ r, (f r).position = r.position) (ht : t.RolesOk)
    (h : updateRole roleId f hid t = some t') : t'.RolesOk := by
  refine (image_change hid hdef h).rolesOk ht (fun r _ _ => ?_) fun r hr hd => ?_ <;>
    split
  · exact hpos r
  · rfl
  · exact (hpos r).symm ▸ ht.others r hr hd
  · exact ht.others r hr hd

theorem roleStep_change (hid : ∀ r, (f r).id = r.id) (hdef : ∀ r, (f r).isDefault = r.isDefault)
    (hpos : ∀ r, (f r).position = r.position) (ht : t.RolesOk) (hl : 0 ≤ level) {role : DbRole}
    (hr : role ∈ t.roles.rows) (hrid : role.id = roleId) (hrd : role.isDefault = true)
    (hbits : bits (f role).permissions ⊆ bits role.permissions ∪ bits perms)
    (h : updateRole roleId f hid t = some t') : RoleStep level perms t t' := by
  have hposition : ∀ r : DbRole, (if r.id = roleId then f r else r).position = r.position := by
    intro r
    split
    · exact hpos r
    · rfl
  refine (image_change hid hdef h).roleStep (fun r hr' => ?_) (fun r hr' hlr => ⟨rfl, ?_, ?_⟩)
    (fun r _ s _ _ hlt => by rwa [hposition, hposition])
    fun r _ s _ _ hle => by rwa [hposition, hposition]
  · split
    · rename_i hri
      obtain rfl := role_unique hr' hr (hri.trans hrid.symm)
      exact hbits
    · exact Set.subset_union_left
  · rw [if_neg]
    intro hri
    obtain rfl := role_unique hr' hr (hri.trans hrid.symm)
    have := ht.default r hr hrd
    omega
  · cases h
    exact fun _ ha => ha

end Update

/-- What a change of a role makes of the tables. -/
inductive UpdatesRole (t : Tables) (roleId : Int) (permissions : Permissions) (position : Int)
    (t' : Tables) : Prop
  | everyone {role : DbRole} {f : DbRole → DbRole} {hid : ∀ r, (f r).id = r.id}
      (hr : role ∈ t.roles.rows) (hrid : role.id = roleId) (hrd : role.isDefault = true)
      (hdef : ∀ r, (f r).isDefault = r.isDefault) (hpos : ∀ r, (f r).position = r.position)
      (hperm : ∀ r, (f r).permissions = permissions) (h : updateRole roleId f hid t = some t')
  | other {role : DbRole} {f : DbRole → DbRole} {hid : ∀ r, (f r).id = r.id}
      (hr : role ∈ t.roles.rows) (hrid : role.id = roleId) (hrd : role.isDefault = false)
      (hdef : ∀ r, (f r).isDefault = r.isDefault)
      (hpos : ∀ r, (f r).position = CommunityDb.clampPosition t.maxRolePosition position)
      (hperm : ∀ r, (f r).permissions = permissions)
      (h : applyAll (CommunityDb.moveRoles role.position
        (CommunityDb.clampPosition t.maxRolePosition position) ++ [updateRole roleId f hid]) t =
          some t')

section Updates

variable {roleId position : Int} {permissions : Permissions}

theorem le_maxRolePosition {r : DbRole} (hr : r ∈ t.roles.rows) :
    r.position ≤ t.maxRolePosition := by
  have hmem := mem_map_of_mem (f := DbRole.position) hr
  rw [maxRolePosition]
  split
  · rename_i hnil
    rw [hnil] at hmem
    cases hmem
  · rename_i p ps hcons
    rw [hcons] at hmem
    rcases mem_cons.1 hmem with h | h
    · exact h ▸ (le_foldl_max ps p).1
    · exact (le_foldl_max ps p).2 _ h

theorem UpdatesRole.rolesOk (h : UpdatesRole t roleId permissions position t') (ht : t.RolesOk) :
    t'.RolesOk := by
  cases h with
  | everyone hr hrid hrd hdef hpos hperm h => exact change_rolesOk _ hdef hpos ht h
  | other hr hrid hrd hdef hpos hperm h =>
    have hold := ht.others _ hr hrd
    have hmax := le_maxRolePosition hr
    refine update_rolesOk _ hdef hpos ht hr hrid hrd hold ?_ h
    rw [CommunityDb.clampPosition]
    omega

/-- The role, if not `everyone`, and the position are below the member, who has the changed bits. -/
theorem UpdatesRole.roleStep (h : UpdatesRole t roleId permissions position t') (ht : t.RolesOk)
    (hl : 0 ≤ level)
    (hguard : ∀ r ∈ t.roles.rows, r.id = roleId →
      (r.isDefault = false → r.position < level ∧ position < level) ∧
        bits permissions ⊆ bits r.permissions ∪ bits perms) : RoleStep level perms t t' := by
  cases h with
  | everyone hr hrid hrd hdef hpos hperm h =>
    exact roleStep_change _ hdef hpos ht hl hr hrid hrd (hperm _ ▸ (hguard _ hr hrid).2) h
  | other hr hrid hrd hdef hpos hperm h =>
    obtain ⟨hbelow, hbits⟩ := hguard _ hr hrid
    obtain ⟨hlt, hnew⟩ := hbelow hrd
    have hold := ht.others _ hr hrd
    refine roleStep_update _ hdef hpos hr hrid rfl hlt ?_ (fun r _ => hperm r ▸ hbits) h
    -- a position below 1 is taken for 1, which is below a member who has a role to move
    rw [CommunityDb.clampPosition]
    omega

end Updates

/-! ## Deleting a role -/

/-- The statements that delete a role from the position `position`. -/
def deletion (roleId position : Int) : List Stmt := [
  deleteOverwrites fun ow => ow.targetType = 0 && ow.targetId = toString roleId,
  deleteMemberRoles (·.roleId = roleId),
  deleteRole roleId,
  shiftRoles (fun p => position < p) (-1)]

def closeGap (position : Int) (r : DbRole) : DbRole :=
  if ! r.isDefault && decide (position < r.position) then { r with position := r.position + -1 }
  else r

section Delete

variable {roleId position : Int}

theorem closeGap_position (r : DbRole) : (closeGap position r).position =
    if r.isDefault = false ∧ position < r.position then r.position - 1 else r.position := by
  rw [closeGap]
  cases r.isDefault <;> simp only [Bool.not_true, Bool.not_false, Bool.false_and, Bool.true_and,
    decide_eq_true_eq, Bool.false_eq_true, if_false, false_and, true_and, Bool.true_eq_false]
  split <;> rfl

theorem image_delete (h : applyAll (deletion roleId position) t = some t') :
    Image (fun r => ! decide (r.id = roleId)) (closeGap position) t t' ∧
      t'.memberRoles.rows = t.memberRoles.rows.filter fun a => ! decide (a.roleId = roleId) := by
  cases h
  refine ⟨⟨rfl, fun _ => mem_of_mem_filter, rfl, fun r => ?_, fun r => ?_⟩, rfl⟩ <;> rw [closeGap] <;>
    split <;> rfl

theorem delete_rolesOk (hp : 1 ≤ position) (ht : t.RolesOk)
    (h : applyAll (deletion roleId position) t = some t') : t'.RolesOk := by
  refine (image_delete h).1.rolesOk ht (fun r _ hd => ?_) fun r hr hd => ?_ <;>
    rw [closeGap_position, hd]
  · simp
  · have := ht.others r hr hd
    split <;> omega

theorem roleStep_delete (ht : t.RolesOk) (hl : 0 ≤ level) {role : DbRole}
    (hr : role ∈ t.roles.rows) (hrid : role.id = roleId) (hrp : role.position = position)
    (hp : 1 ≤ position) (hlt : position < level)
    (h : applyAll (deletion roleId position) t = some t') : RoleStep level perms t t' := by
  obtain ⟨himage, hm⟩ := image_delete h
  have hnd : ∀ r ∈ t.roles.rows, level < r.position → r.isDefault = false := by
    intro r hr' hlr
    by_contra hd
    have := ht.default r hr' (by simpa using hd)
    omega
  have hne : ∀ r ∈ t.roles.rows, level < r.position → r.id ≠ roleId := by
    intro r hr' hlr hri
    rw [role_unique hr' hr (hri.trans hrid.symm)] at hlr
    omega
  have hdown : ∀ r ∈ t.roles.rows, level < r.position →
      (closeGap position r).position = r.position - 1 := fun r hr' hlr => by
    rw [closeGap_position, if_pos ⟨hnd r hr' hlr, by omega⟩]
  refine himage.roleStep (fun r _ => ?_)
    (fun r hr' hlr => ⟨by simp [hne r hr' hlr], ?_, fun uid ha => ?_⟩)
    (fun r hr' s hs hls hrs => ?_) fun r hr' s hs hls hsr => ?_
  · rw [closeGap]
    split <;> exact Set.subset_union_left
  · rw [closeGap]
    split <;> rfl
  · rw [hm, mem_filter]
    exact ⟨ha, by simp [hne r hr' hlr]⟩
  · rw [hdown s hs hls, closeGap_position]
    -- a role at or below the gap is two places below one above the member
    cases hd : r.isDefault with
    | true =>
      have := ht.default r hr' hd
      split <;> omega
    | false =>
      simp only [true_and]
      split <;> omega
  · rw [hdown s hs hls, hdown r hr' (by omega)]
    omega

end Delete

/-! ## Giving a member another set of roles -/

/-- The statements that give a member these roles and no others. -/
def assignment (uid : Uid) (roleIds : List Int) : List Stmt :=
  deleteMemberRoles (·.uid = uid) :: roleIds.map (insertMemberRole uid)

section Assign

variable {uid : Uid} {roleIds : List Int}

theorem mem_insertMemberRole {roleId : Int} {a : DbMemberRole}
    (h : insertMemberRole uid roleId t = some t') :
    a ∈ t'.memberRoles.rows ↔ a ∈ t.memberRoles.rows ∨ a = ⟨uid, roleId⟩ := by
  cases h
  refine Table.mem_insertOrIgnore fun x hx => ?_
  obtain ⟨hu, hr⟩ := Prod.mk.inj hx
  cases x
  cases hu
  cases hr
  rfl

theorem mem_inserts {a : DbMemberRole}
    (h : applyAll (roleIds.map (insertMemberRole uid)) t = some t') :
    a ∈ t'.memberRoles.rows ↔ a ∈ t.memberRoles.rows ∨ a.uid = uid ∧ a.roleId ∈ roleIds := by
  induction roleIds generalizing t with
  | nil => cases h; simp
  | cons id ids ih =>
    rw [map_cons, applyAll, foldlM_cons] at h
    obtain ⟨u, hu, h⟩ := Option.bind_eq_some_iff.1 h
    rw [ih h, mem_insertMemberRole hu, or_assoc, mem_cons, and_or_left]
    refine or_congr_right (or_congr_left ?_)
    cases a
    simp

theorem mem_assignment {a : DbMemberRole} (h : applyAll (assignment uid roleIds) t = some t') :
    a ∈ t'.memberRoles.rows ↔ a.uid ≠ uid ∧ a ∈ t.memberRoles.rows ∨
      a.uid = uid ∧ a.roleId ∈ roleIds := by
  rw [assignment, applyAll, foldlM_cons] at h
  obtain ⟨u, hu, h⟩ := Option.bind_eq_some_iff.1 h
  cases hu
  rw [mem_inserts h, Table.rows_deleteWhere, mem_filter, and_comm]
  simp

theorem assignment_frame (h : applyAll (assignment uid roleIds) t = some t') :
    t'.roles = t.roles ∧ t'.roleSequence = t.roleSequence ∧
      ∀ other, other ≠ uid → t'.assignments other = t.assignments other := by
  refine Preserves.applyAll (R := fun u : Tables => u.roles = t.roles ∧
    u.roleSequence = t.roleSequence ∧
      ∀ other, other ≠ uid → u.assignments other = t.assignments other)
    (fun stmt hs => ?_) ⟨rfl, rfl, fun _ _ => rfl⟩ h
  have hc : Concerns uid stmt ∧ ∀ u u', stmt u = some u' → u'.roleSequence = u.roleSequence := by
    rcases mem_cons.1 hs with rfl | hs
    · exact ⟨concerns_deleteMemberRoles, by rintro u _ ⟨⟩; rfl⟩
    · obtain ⟨id, -, rfl⟩ := mem_map.1 hs
      exact ⟨concerns_insertMemberRole id, by rintro u _ ⟨⟩; rfl⟩
  rintro u u' ⟨hr, hseq, ha⟩ hu
  obtain ⟨-, -, hr', ho⟩ := hc.1 u u' hu
  exact ⟨hr'.trans hr, (hc.2 u u' hu).trans hseq, fun other hne =>
    ((ho other hne).1).trans (ha other hne)⟩

theorem assign_rolesOk (hids : ∀ id ∈ roleIds, ∃ r ∈ t.roles.rows, r.id = id) (ht : t.RolesOk)
    (h : applyAll (assignment uid roleIds) t = some t') : t'.RolesOk := by
  obtain ⟨hr, hs, -⟩ := assignment_frame h
  refine ⟨hr ▸ ht.default, hr ▸ ht.others, hr ▸ hs ▸ ht.ids, fun a ha => ?_⟩
  rw [hs]
  rcases (mem_assignment h).1 ha with ⟨-, ha⟩ | ⟨-, hid⟩
  · exact ht.assigned a ha
  · obtain ⟨r, hr', hid⟩ := hids _ hid
    exact hid ▸ ht.ids r hr'

/-- Roles given are the user's, or below the member with the member's bits; none above the member is
    taken. -/
theorem roleStep_assign (hadd : ∀ id ∈ roleIds, ⟨uid, id⟩ ∈ t.memberRoles.rows ∨
      ∃ r ∈ t.roles.rows, r.id = id ∧ r.position < level ∧ bits r.permissions ⊆ bits perms)
    (hkeep : ∀ r ∈ t.roles.rows, level < r.position → ⟨uid, r.id⟩ ∈ t.memberRoles.rows →
      r.id ∈ roleIds)
    (h : applyAll (assignment uid roleIds) t = some t') : RoleStep level perms t t' := by
  obtain ⟨hr, -, -⟩ := assignment_frame h
  constructor
  · exact fun r' hr' => .inr ⟨r', hr ▸ hr', rfl, rfl, Set.subset_union_left⟩
  · intro a ha
    rcases (mem_assignment h).1 ha with ⟨-, ha⟩ | ⟨hu, hid⟩
    · exact .inl ha
    · refine (hadd _ hid).imp (fun ha => ?_) id
      cases a
      cases hu
      exact ha
  · exact fun r hr' _ => ⟨r, hr ▸ hr', rfl, rfl⟩
  · intro r hr' hl other
    rw [mem_assignment h]
    constructor
    · rintro (⟨-, ha⟩ | ⟨hu, hid⟩)
      · exact ha
      · rcases hadd _ hid with ha | ⟨s, hs, hsid, hsl, -⟩
        · cases hu
          exact ha
        · rw [role_unique hs hr' hsid] at hsl
          omega
    · intro ha
      rcases eq_or_ne other uid with rfl | hne
      · exact .inr ⟨rfl, hkeep r hr' hl ha⟩
      · exact .inl ⟨hne, ha⟩
  · intro r hr₁ s hs r' hr' s' hs' hri hsi _ hlt
    rwa [role_unique (hr ▸ hr') hr₁ hri, role_unique (hr ▸ hs') hs hsi]
  · intro r hr₁ s hs r' hr' s' hs' hri hsi _ hle
    rwa [role_unique (hr ▸ hr') hr₁ hri, role_unique (hr ▸ hs') hs hsi]

end Assign

end Tables
end Decibell
