import Decibell.Community.Faults
import Decibell.Community.RoleEffects
import Decibell.Lib.Ranks

/-!
# Role positions

The position of a role is its rank. The default role stands at 0, and the others are `Ranked`: they
have the positions 1, 2, … A deletion closes the gap, an update moves the role and those in between
(`PlacedAt`).
-/

namespace Decibell

open Lib Lib.Conn Tables List

/-! ## Positions of the tables -/

namespace Tables

/-- The positions of the roles other than the default one. -/
def ranks (t : Tables) : List Int := (t.roles.rows.filter (! ·.isDefault)).map DbRole.position

/-- Positions are dense; the default role is below the others. -/
structure Ranked (t : Tables) : Prop where
  dense : Dense t.ranks
  default : ∀ r ∈ t.roles.rows, r.isDefault = true → r.position = 0

/-- `roleId` is at a position, the others in their order. -/
structure PlacedAt (roleId position : Int) (t t' : Tables) : Prop where
  keys : t'.roles.keys = t.roles.keys
  placed : ∀ r ∈ t'.roles.rows, r.id = roleId → r.position = position
  others : ∀ r ∈ t.roles.rows, ∀ s ∈ t.roles.rows, r.id ≠ roleId → s.id ≠ roleId →
    ∀ r' ∈ t'.roles.rows, ∀ s' ∈ t'.roles.rows, r'.id = r.id → s'.id = s.id →
      (r'.position < s'.position ↔ r.position < s.position)

/-- Every role is where it was. -/
def SamePlaces (t t' : Tables) : Prop :=
  t'.roles.rows.map (fun r => (r.id, r.isDefault, r.position)) =
    t.roles.rows.map fun r => (r.id, r.isDefault, r.position)

variable {t t' u : Tables}

theorem mem_ranks {r : DbRole} (hr : r ∈ t.roles.rows) (hd : r.isDefault = false) :
    r.position ∈ t.ranks :=
  mem_map_of_mem (mem_filter.2 ⟨hr, by simp [hd]⟩)

theorem exists_of_mem_ranks {p : Int} (hp : p ∈ t.ranks) :
    ∃ r ∈ t.roles.rows, r.isDefault = false ∧ r.position = p := by
  obtain ⟨r, hr, rfl⟩ := mem_map.1 hp
  obtain ⟨hr, hd⟩ := mem_filter.1 hr
  exact ⟨r, hr, by simpa using hd, rfl⟩

theorem SamePlaces.ranked (h : SamePlaces t t') (ht : t.Ranked) : t'.Ranked := by
  have hranks : ∀ u : Tables, u.ranks =
      ((u.roles.rows.map fun r => (r.id, r.isDefault, r.position)).filter (! ·.2.1)).map (·.2.2) := by
    intro u
    rw [filter_map, map_map]
    rfl
  refine ⟨?_, fun r' hr' hd => ?_⟩
  · rw [hranks, h, ← hranks]
    exact ht.dense
  · obtain ⟨r, hr, heq⟩ := mem_map.1 (h ▸ mem_map_of_mem hr')
    obtain ⟨-, hdef, hpos⟩ :
        r.id = r'.id ∧ r.isDefault = r'.isDefault ∧ r.position = r'.position := by
      simpa using heq
    exact hpos ▸ ht.default r hr (hdef.trans hd)

theorem Ranked.unique (h : t.Ranked) {r s : DbRole} (hr : r ∈ t.roles.rows) (hs : s ∈ t.roles.rows)
    (hrd : r.isDefault = false) (hsd : s.isDefault = false) (hp : r.position = s.position) : r = s :=
  inj_on_of_nodup_map h.dense.nodup (mem_filter.2 ⟨hr, by simp [hrd]⟩)
    (mem_filter.2 ⟨hs, by simp [hsd]⟩) hp

theorem foldl_max_mem (l : List Int) (a : Int) : l.foldl max a ∈ a :: l := by
  induction l generalizing a with
  | nil => exact .head _
  | cons b l ih =>
    rw [foldl_cons]
    rcases mem_cons.1 (ih (max a b)) with h | h
    · have hmax : max a b = a ∨ max a b = b := by omega
      rcases hmax with hmax | hmax
      · rw [h, hmax]
        exact .head _
      · rw [h, hmax]
        exact .tail _ (.head _)
    · exact .tail _ (.tail _ h)

theorem Ranked.maxRolePosition (h : t.Ranked) {r : DbRole} (hr : r ∈ t.roles.rows)
    (hd : r.isDefault = false) : t.maxRolePosition = t.ranks.length := by
  have hpos := length_pos_of_mem (mem_ranks hr hd)
  obtain ⟨s, hs, -, htop⟩ := exists_of_mem_ranks (h.dense.mem (p := t.ranks.length) (by omega) le_rfl)
  refine le_antisymm ?_ (htop ▸ le_maxRolePosition hs)
  -- the highest position is one of some role
  obtain ⟨b, hb, hmax⟩ : ∃ b ∈ t.roles.rows, b.position = t.maxRolePosition := by
    rw [Tables.maxRolePosition]
    split
    · rename_i hnil
      rw [map_eq_nil_iff.1 hnil] at hr
      cases hr
    · rename_i p ps hcons
      exact mem_map.1 (hcons ▸ foldl_max_mem ps p)
  cases hbd : b.isDefault with
  | true =>
    rw [← hmax, h.default b hb hbd]
    omega
  | false => exact hmax ▸ (h.dense.bounds (mem_ranks hb hbd)).2

theorem Image.ranks {keep : DbRole → Bool} {g : DbRole → DbRole} (h : Image keep g t t')
    {k : Int → Bool} {f : Int → Int}
    (hk : ∀ r ∈ t.roles.rows, r.isDefault = false → keep r = k r.position)
    (hf : ∀ r ∈ t.roles.rows, r.isDefault = false → keep r = true → (g r).position = f r.position) :
    t'.ranks = (t.ranks.filter k).map f := by
  rw [Tables.ranks, h.rows, filter_map, filter_filter, Tables.ranks, filter_map,
    filter_filter, map_map, map_map]
  have hrows : t.roles.rows.filter (fun r => ((! ·.isDefault) ∘ g) r && keep r) =
      t.roles.rows.filter fun r => (k ∘ DbRole.position) r && ! r.isDefault := by
    refine filter_congr fun r hr => ?_
    simp only [Function.comp_apply, h.isDefault]
    cases hd : r.isDefault with
    | true => simp
    | false => simp [hk r hr hd]
  rw [hrows]
  refine map_congr_left fun r hr => ?_
  obtain ⟨hr, hp⟩ := mem_filter.1 hr
  simp only [Function.comp_apply, Bool.and_eq_true, Bool.not_eq_true'] at hp
  exact hf r hr hp.2 ((hk r hr hp.2).trans hp.1)

theorem Image.ranked {keep : DbRole → Bool} {g : DbRole → DbRole} (h : Image keep g t t')
    (ht : t.Ranked) (h0 : ∀ r ∈ t.roles.rows, r.isDefault = true → (g r).position = r.position)
    (hdense : Dense t'.ranks) : t'.Ranked := by
  refine ⟨hdense, fun r' hr' hd => ?_⟩
  obtain ⟨r, hr, -, rfl⟩ := h.mem.1 hr'
  rw [h.isDefault] at hd
  exact (h0 r hr hd).trans (ht.default r hr hd)

/-! ## The operations -/

theorem ranks_insertRole {role : DbRole} (hd : role.isDefault = false)
    (h : insertRole role t = some t') : t'.ranks = t.ranks ++ [role.position] := by
  rw [ranks, (insertRole_eq h).1, filter_append, map_append, ranks]
  simp [hd]

theorem default_insertRole {role : DbRole} (hd : role.isDefault = false) (ht : t.Ranked)
    (h : insertRole role t = some t') : ∀ r ∈ t'.roles.rows, r.isDefault = true → r.position = 0 := by
  intro r hr hrd
  rw [(insertRole_eq h).1] at hr
  rcases mem_append.1 hr with hr | hr
  · exact ht.default r hr hrd
  · cases mem_singleton.1 hr
    exact absurd (hd.symm.trans hrd) Bool.false_ne_true

theorem Ranked.create {role : DbRole} (ht : t.Ranked) (hd : role.isDefault = false)
    (hp : role.position = 1) (hu : shiftRoles (fun _ => true) 1 t = some u)
    (h : insertRole role u = some t') : t'.Ranked := by
  have himage := image_shiftAll hu
  have hranks : u.ranks = t.ranks.map (· + 1) := by
    have := himage.ranks (k := fun _ => true) (f := (· + 1)) (fun _ _ _ => rfl) fun r _ hrd _ => by
      simp [moveUp_position, hrd]
    rwa [filter_true] at this
  have hdense : Dense t'.ranks := by
    rw [ranks_insertRole hd h, hranks, hp]
    exact ht.dense.below
  have hu' : ∀ r ∈ u.roles.rows, r.isDefault = true → r.position = 0 := by
    intro r hr hrd
    obtain ⟨b, hb, -, rfl⟩ := himage.mem.1 hr
    rw [himage.isDefault] at hrd
    rw [moveUp_position, if_pos hrd]
    exact ht.default b hb hrd
  refine ⟨hdense, fun r hr hrd => ?_⟩
  rw [(insertRole_eq h).1] at hr
  rcases mem_append.1 hr with hr | hr
  · exact hu' r hr hrd
  · cases mem_singleton.1 hr
    exact absurd (hd.symm.trans hrd) Bool.false_ne_true

/-- A new role at the lowest position, the others staying: right only if there are none. -/
theorem Ranked.insert_iff {role : DbRole} (ht : t.Ranked) (hd : role.isDefault = false)
    (hp : role.position = 1) (h : insertRole role t = some t') : t'.Ranked ↔ t.ranks = [] := by
  have hranks := ranks_insertRole hd h
  rw [hp] at hranks
  constructor
  · intro ht'
    by_contra hne
    have hpos := length_pos_of_ne_nil hne
    have hn := ht'.dense.nodup
    rw [hranks] at hn
    exact (nodup_append.1 hn).2.2 1 (ht.dense.mem le_rfl (by omega)) 1 (.head _) rfl
  · intro hnil
    refine ⟨?_, default_insertRole hd ht h⟩
    rw [hranks, hnil]
    decide

theorem Ranked.delete {role : DbRole} (ht : t.Ranked) (hr : role ∈ t.roles.rows)
    (hd : role.isDefault = false) (h : applyAll (deletion role.id role.position) t = some t') :
    t'.Ranked := by
  have himage := (image_delete h).1
  refine himage.ranked ht (fun r _ hrd => by simp [closeGap_position, hrd]) ?_
  rw [himage.ranks (k := (· ≠ role.position)) (f := close role.position)
    (fun r hr' hrd => ?_) fun r _ hrd _ => ?_]
  · exact ht.dense.close (mem_ranks hr hd)
  · by_cases hid : r.id = role.id
    · simp [role_unique hr' hr hid]
    · have hne : r.position ≠ role.position := fun hp => hid (ht.unique hr' hr hrd hd hp ▸ rfl)
      simp [hid, hne]
  · rw [closeGap_position, close, hrd]
    simp

theorem slide_eq_shift {old new : Int} {r : DbRole} (hd : r.isDefault = false)
    (hne : r.position ≠ old) : (slide old new r).position = shift old new r.position := by
  rw [slide, hd, if_neg Bool.false_ne_true, shift, if_neg hne]
  split_ifs <;> rfl

section Update

variable {role : DbRole} {new : Int} {f : DbRole → DbRole} {hid : ∀ r, (f r).id = r.id}

theorem moved_eq_shift (ht : t.Ranked) (hr : role ∈ t.roles.rows) (hd : role.isDefault = false)
    (hpos : ∀ r, (f r).position = new) {r : DbRole} (hr' : r ∈ t.roles.rows)
    (hrd : r.isDefault = false) :
    (moved role.id role.position new f r).position = shift role.position new r.position := by
  rw [moved_position hpos]
  by_cases hid : r.id = role.id
  · rw [if_pos hid, role_unique hr' hr hid, shift, if_pos rfl]
  · rw [if_neg hid, slide_eq_shift hrd fun hp => hid (ht.unique hr' hr hrd hd hp ▸ rfl)]

theorem moved_default (hd : role.isDefault = false) (hr : role ∈ t.roles.rows) {r : DbRole}
    (hr' : r ∈ t.roles.rows) (hrd : r.isDefault = true) :
    (moved role.id role.position new f r).position = r.position := by
  have hne : r.id ≠ role.id := fun h => by
    rw [role_unique hr' hr h, hd] at hrd
    cases hrd
  rw [moved, if_neg hne, slide, if_pos hrd]

theorem Ranked.update (ht : t.Ranked) (hr : role ∈ t.roles.rows) (hd : role.isDefault = false)
    (hdef : ∀ r, (f r).isDefault = r.isDefault) (hpos : ∀ r, (f r).position = new)
    (hnew : 1 ≤ new ∧ new ≤ t.ranks.length)
    (h : applyAll (CommunityDb.moveRoles role.position new ++ [updateRole role.id f hid]) t =
      some t') : t'.Ranked ∧ PlacedAt role.id new t t' := by
  have himage := image_update hid hdef h
  have hmem : ∀ r' ∈ t'.roles.rows, ∃ r ∈ t.roles.rows,
      r' = moved role.id role.position new f r := by
    intro r' hr'
    obtain ⟨r, hr, -, rfl⟩ := himage.mem.1 hr'
    exact ⟨r, hr, rfl⟩
  constructor
  · refine himage.ranked ht (fun r hr' hrd => moved_default hd hr hr' hrd) ?_
    rw [himage.ranks (k := fun _ => true) (f := shift role.position new) (fun _ _ _ => rfl)
      fun r hr' hrd _ => moved_eq_shift ht hr hd hpos hr' hrd, filter_true]
    exact ht.dense.shift (mem_ranks hr hd) hnew
  · refine ⟨?_, fun r' hr' hri => ?_, fun r hr₁ s hs₁ hrne hsne r' hr' s' hs' hri hsi => ?_⟩
    · rw [Table.keys, himage.rows, filter_true, map_map]
      exact map_congr_left fun r _ => himage.id r
    · obtain ⟨r, -, rfl⟩ := hmem r' hr'
      rw [himage.id] at hri
      rw [moved_position hpos, if_pos hri]
    · rw [himage.eq hr₁ hr' hri, himage.eq hs₁ hs' hsi]
      have hold : ∀ b ∈ t.roles.rows, b.id ≠ role.id → b.isDefault = false →
          b.position ≠ role.position :=
        fun b hb hbne hbd hp => hbne (ht.unique hb hr hbd hd hp ▸ rfl)
      have hbounds : ∀ b ∈ t.roles.rows, b.isDefault = false →
          1 ≤ shift role.position new b.position :=
        fun b hb hbd => ((ht.dense.shift (mem_ranks hr hd) hnew).bounds
          (mem_map_of_mem (mem_ranks hb hbd))).1
      cases hrd : r.isDefault with
      | true =>
        have h0 := ht.default r hr₁ hrd
        rw [moved_default hd hr hr₁ hrd]
        cases hsd : s.isDefault with
        | true => rw [moved_default hd hr hs₁ hsd]
        | false =>
          have h1 := (ht.dense.bounds (mem_ranks hs₁ hsd)).1
          have h2 := hbounds s hs₁ hsd
          rw [moved_eq_shift ht hr hd hpos hs₁ hsd]
          omega
      | false =>
        rw [moved_eq_shift ht hr hd hpos hr₁ hrd]
        cases hsd : s.isDefault with
        | true =>
          have h0 := ht.default s hs₁ hsd
          have h1 := (ht.dense.bounds (mem_ranks hr₁ hrd)).1
          have h2 := hbounds r hr₁ hrd
          rw [moved_default hd hr hs₁ hsd]
          omega
        | false =>
          rw [moved_eq_shift ht hr hd hpos hs₁ hsd]
          exact shift_lt_shift (hold r hr₁ hrne hrd) (hold s hs₁ hsne hsd)

end Update

theorem exists_insertRole (role : DbRole) (t : Tables) : ∃ t', insertRole role t = some t' := by
  have hnew : t.nextRoleId ∉ t.roles.keys := by
    intro hmem
    have := (le_foldl_max t.roles.keys t.roleSequence).2 _ hmem
    rw [nextRoleId] at this
    omega
  exact ⟨_, by rw [insertRole, Table.insert_eq_some hnew, Option.map_some]⟩

end Tables

/-- An operation of the roles. -/
def DbOp.ofRoles : DbOp → Bool
  | createRole .. | updateRole .. | deleteRole .. => true
  | _ => false

/-! ## The operations when statements fail -/

namespace CommunityDb

variable {t : Tables} {os : List Outcome}

/-- A role is inserted with the others not moved up: that statement failed alone, or undid the
    transaction. -/
def ShiftLost (rawName : Bytes) (os : List Outcome) : Prop :=
  (clampUtf8 rawName maxRoleNameBytes).isEmpty = false ∧ nextOf os = .ok ∧
    nextOf os.tail ≠ .ok ∧ nextOf os.tail.tail = .ok ∧
      (nextOf os.tail = .abort ∨ nextOf os.tail.tail.tail = .ok)

instance (rawName : Bytes) (os : List Outcome) : Decidable (ShiftLost rawName os) :=
  inferInstanceAs (Decidable (_ ∧ _ ∧ _ ∧ _ ∧ _))

/-- A creation leaves nothing, or the new role, the others moved up unless the shift was lost. -/
def Creates (lost : Prop) (t t' : Tables) : Prop :=
  t' = t ∧ ¬lost ∨ ∃ role u, role.isDefault = false ∧ role.position = 1 ∧
    (lost ∧ u = t ∨ ¬lost ∧ shiftRoles (fun _ => true) 1 t = some u) ∧ insertRole role u = some t'

theorem facing_invalidatePermCache {c : Conn Tables} :
    Triple (Facing Whatever c) invalidatePermCache fun _ => Facing Whatever c :=
  fun _ hd => ⟨trivial, hd.conn⟩

theorem facing_insertRole (name : Bytes) (color : BitVec 32) (permissions : Permissions)
    (manageEachOther : Bool) (u : Tables) (sv : Option Tables) (os : List Outcome) :
    Triple (Facing Whatever ⟨u, sv, os⟩) (do
      let role : DbRole :=
        { id := (← get).tables.nextRoleId, name, color, position := 1, permissions, manageEachOther }
      if ← sql (exec (insertRole role)) then
        let _ ← sql commit
        return some role
      else
        sql rollback
        return none) fun _ d => d.conn.Idle ∧
          if nextOf os = .ok ∧ (sv = none ∨ nextOf os.tail = .ok) then
            ∃ role : DbRole, role.isDefault = false ∧ role.position = 1 ∧
              insertRole role u = some d.tables
          else d.tables = sv.getD u := by
  refine .get_bind fun d _ => ?_
  dsimp only
  obtain ⟨u', hu'⟩ := exists_insertRole
    { id := d.tables.nextRoleId, name, color, position := 1, permissions, manageEachOther } u
  by_cases ho : nextOf os = .ok
  · refine (facing_sql (exec_of_head_ok hu' ho)).bind_eq ?_
    rw [if_pos rfl]
    cases sv with
    | none =>
      refine (facing_sql run_commit_idle).bind_eq (.pure fun d' hd' => ?_)
      rw [if_pos ⟨ho, .inl rfl⟩, hd'.tables]
      exact ⟨congrArg Conn.saved hd'.conn, _, rfl, rfl, hu'⟩
    | some t =>
      refine (facing_sql run_commit).bind_eq (.pure fun d' hd' => ?_)
      refine ⟨congrArg Conn.saved hd'.conn, ?_⟩
      rw [hd'.tables]
      by_cases hc : nextOf os.tail = .ok
      · rw [if_pos ⟨ho, .inr hc⟩]
        exact ⟨_, rfl, rfl, hu'.trans (congrArg some (if_pos hc).symm)⟩
      · rw [if_neg fun h => hc (h.2.resolve_left nofun)]
        exact if_neg hc
  · refine (facing_sql (exec_of_head_not_ok ho)).bind_eq ?_
    rw [if_neg Bool.false_ne_true]
    have hrun : rollback.run (failed (nextOf os) ⟨u, sv, os.tail⟩) =
        ((), ⟨sv.getD u, none, os.tail⟩) := by
      rw [failed]
      split <;> rfl
    refine (facing_sql hrun).bind_eq (.pure fun d' hd' => ?_)
    rw [if_neg fun h => ho h.1, hd'.tables]
    exact ⟨congrArg Conn.saved hd'.conn, rfl⟩

theorem facing_createRole (rawName : Bytes) (color : BitVec 32) (permissions : Permissions)
    (manageEachOther : Bool) (t : Tables) (os : List Outcome) :
    Triple (Facing Whatever ⟨t, none, os⟩) (createRole rawName color permissions manageEachOther)
      fun _ d => d.conn.Idle ∧ Creates (ShiftLost rawName os) t d.tables := by
  have hkept : ∀ {os'}, ¬ShiftLost rawName os → ∀ d, Facing Whatever ⟨t, none, os'⟩ d →
      d.conn.Idle ∧ Creates (ShiftLost rawName os) t d.tables := fun hno d hd =>
    ⟨congrArg Conn.saved hd.conn, .inl ⟨hd.tables, hno⟩⟩
  refine .ite (fun hname => .pure (hkept fun h => ?_)) fun hname => ?_
  · rw [h.1] at hname
    cases hname
  have hname' := Bool.eq_false_iff.2 hname
  refine facing_invalidatePermCache.bind fun _ => ?_
  refine facing_begin (fun ho => ?_) fun ho => .pure (hkept fun h => ho h.2.1)
  obtain ⟨u, hu⟩ : ∃ u, shiftRoles (fun _ => true) 1 t = some u := ⟨_, rfl⟩
  by_cases hs : nextOf os.tail = .ok
  · -- the others are moved up
    have hno : ¬ShiftLost rawName os := fun h => h.2.2.1 hs
    refine (facing_sql (exec_of_head_ok hu hs)).bind_eq ?_
    refine (facing_insertRole _ _ _ _ _ _ _).conseq (fun _ h => h) fun _ d h => ?_
    obtain ⟨hidle, h⟩ := h
    refine ⟨hidle, ?_⟩
    split at h
    · obtain ⟨role, hd, hp, hr⟩ := h
      exact .inr ⟨role, u, hd, hp, .inr ⟨hno, hu⟩, hr⟩
    · exact .inl ⟨h, hno⟩
  · -- they are not, and what follows is done all the same
    refine (facing_sql (exec_of_head_not_ok hs)).bind_eq ?_
    obtain ⟨sv, hsv, hfailed⟩ : ∃ sv, (sv = none ↔ nextOf os.tail = .abort) ∧ sv.getD t = t ∧
        failed (nextOf os.tail) ⟨t, some t, os.tail.tail⟩ = ⟨t, sv, os.tail.tail⟩ := by
      by_cases ha : nextOf os.tail = .abort
      · exact ⟨none, ⟨fun _ => ha, fun _ => rfl⟩, rfl, if_pos ha⟩
      · exact ⟨some t, ⟨fun h => (by cases h), fun h => absurd h ha⟩, rfl, if_neg ha⟩
    rw [hfailed.2]
    refine (facing_insertRole _ _ _ _ _ _ _).conseq (fun _ h => h) fun _ d h => ?_
    obtain ⟨hidle, h⟩ := h
    refine ⟨hidle, ?_⟩
    split at h
    · rename_i hlost
      rw [hsv] at hlost
      obtain ⟨role, hd, hp, hr⟩ := h
      exact .inr ⟨role, t, hd, hp, .inl ⟨⟨hname', ho, hs, hlost⟩, rfl⟩, hr⟩
    · rename_i hlost
      rw [hsv] at hlost
      exact .inl ⟨h.trans hfailed.1, fun h => hlost h.2.2.2⟩

theorem facing_transact {stmts : List Stmt} {t' : Tables} (h : applyAll stmts t = some t') :
    Triple (Facing Whatever ⟨t, none, os⟩) (sql (transact stmts)) fun _ d => d.conn.Idle ∧
      d.tables = if nextOf os = .ok ∧ committed stmts.length os.tail then t' else t := by
  intro d hd
  have hrun := run_transact_of_applyAll h os
  have hconn : ((sql (transact stmts)).run d).2.conn = ((transact stmts).run ⟨t, none, os⟩).2 :=
    congrArg (fun c => ((transact stmts).run c).2) hd.conn
  rw [hrun] at hconn
  exact ⟨congrArg Conn.saved hconn, congrArg Conn.tables hconn⟩

/-- The statements that change `role`, which moves to `new`. -/
def roleChange (role : DbRole) (new : Int) (name : Bytes) (color : BitVec 32)
    (permissions : Permissions) (manageEachOther : Bool) : List Stmt :=
  moveRoles role.position new ++ [Tables.updateRole role.id
    ({ · with name, color, permissions, position := new, manageEachOther })]

/-- A committed update: the role is there, not the default, gets a name, and its one or two
    statements run. -/
def Updates (roleId : Int) (rawName : Bytes) (position : Int) (t : Tables) (os : List Outcome) :
    Prop :=
  ∃ role ∈ t.roles.rows, role.id = roleId ∧ role.isDefault = false ∧
    (clampUtf8 rawName maxRoleNameBytes).isEmpty = false ∧ nextOf os = .ok ∧
      committed (if clampPosition t.maxRolePosition position = role.position then 1 else 2) os.tail

instance (roleId : Int) (rawName : Bytes) (position : Int) (t : Tables) (os : List Outcome) :
    Decidable (Updates roleId rawName position t os) :=
  inferInstanceAs (Decidable (∃ role ∈ t.roles.rows, _))

section RoleChange

variable (role : DbRole) (new : Int) (name : Bytes) (color : BitVec 32) (permissions : Permissions)
  (manageEachOther : Bool)

theorem length_roleChange : (roleChange role new name color permissions manageEachOther).length =
    if new = role.position then 1 else 2 := by
  rw [roleChange, length_append, moveRoles]
  split_ifs <;> rfl

theorem exists_roleChange (t : Tables) :
    ∃ t', applyAll (roleChange role new name color permissions manageEachOther) t = some t' := by
  obtain ⟨u, hu, -⟩ := applyAll_moveRoles role.position new t
  rw [roleChange, applyAll, foldlM_append]
  exact ⟨_, Option.bind_eq_some_iff.2 ⟨u, hu, rfl⟩⟩

end RoleChange

theorem samePlaces_updateRole {roleId : Int} {f : DbRole → DbRole} {hid : ∀ r, (f r).id = r.id}
    (hf : ∀ r, (f r).isDefault = r.isDefault ∧ (f r).position = r.position) {t' : Tables}
    (h : Tables.updateRole roleId f hid t = some t') : SamePlaces t t' := by
  cases h
  rw [SamePlaces, Table.rows_updateWhere, map_map]
  refine map_congr_left fun r _ => ?_
  rw [Function.comp_apply]
  split
  · rw [hid, (hf r).1, (hf r).2]
  · rfl

theorem facing_updateRole (roleId : Int) (rawName : Bytes) (color : BitVec 32)
    (permissions : Permissions) (position : Int) (manageEachOther : Bool) (ht : t.Ranked) :
    Triple (Facing Whatever ⟨t, none, os⟩)
      (updateRole roleId rawName color permissions position manageEachOther)
      fun _ d => d.conn.Idle ∧ d.tables.Ranked ∧
        (Updates roleId rawName position t os →
          PlacedAt roleId (clampPosition t.ranks.length position) t d.tables) ∧
        (¬Updates roleId rawName position t os → SamePlaces t d.tables) := by
  have hsame : ∀ {os' t'} d, SamePlaces t t' → ¬Updates roleId rawName position t os →
      Facing Whatever ⟨t', none, os'⟩ d → d.conn.Idle ∧ d.tables.Ranked ∧
        (Updates roleId rawName position t os →
          PlacedAt roleId (clampPosition t.ranks.length position) t d.tables) ∧
        (¬Updates roleId rawName position t os → SamePlaces t d.tables) := by
    intro os' t' d hst hno hd
    refine ⟨congrArg Conn.saved hd.conn, ?_, fun h => absurd h hno, fun _ => ?_⟩
    · exact hd.tables ▸ hst.ranked ht
    · exact hd.tables ▸ hst
  refine .get_bind fun d hd => ?_
  rw [hd.tables]
  dsimp only
  cases hfind : t.findRole roleId with
  | none =>
    refine .pure fun d' => hsame d' rfl ?_
    rintro ⟨role, hr, rfl, -⟩
    have hfound : t.findRole role.id = some role := Table.find?_eq_some.2 ⟨hr, rfl⟩
    cases hfind.symm.trans hfound
  | some cur =>
  obtain ⟨hcur, rfl⟩ := Table.find?_eq_some.1 hfind
  refine facing_invalidatePermCache.bind fun _ => .ite (fun hdef => ?_) fun hdef => .ite
    (fun hname => .pure fun d' => hsame d' rfl ?_) fun hname => ?_
  · -- the default role stays where it is
    have hno : ¬Updates cur.id rawName position t os := by
      rintro ⟨role, hr, hid, hd, -⟩
      rw [role_unique hr hcur hid, hdef] at hd
      cases hd
    obtain ⟨u, hu⟩ : ∃ u, Tables.updateRole cur.id ({ · with permissions, manageEachOther })
      (by intro _; rfl) t = some u := ⟨_, rfl⟩
    by_cases ho : nextOf os = .ok
    · exact (facing_sql (exec_of_head_ok hu ho)).conseq (fun _ h => h) fun _ d' hd' =>
        hsame d' (samePlaces_updateRole (fun _ => ⟨by rfl, by rfl⟩) hu) hno hd'.2
    · have hrun : (exec (Tables.updateRole cur.id ({ · with permissions, manageEachOther })
          (by intro _; rfl))).run ⟨t, none, os⟩ = (false, ⟨t, none, os.tail⟩) := by
        rw [exec_of_head_not_ok ho, failed_idle]
      exact (facing_sql hrun).conseq (fun _ h => h) fun _ d' hd' => hsame d' rfl hno hd'.2
  · rintro ⟨-, -, -, -, h, -⟩
    rw [h] at hname
    cases hname
  · have hdef := Bool.eq_false_iff.2 hdef
    have hmax := ht.maxRolePosition hcur hdef
    have hpos := length_pos_of_mem (mem_ranks hcur hdef)
    obtain ⟨u, hu⟩ := exists_roleChange cur (clampPosition t.maxRolePosition position)
      (clampUtf8 rawName maxRoleNameBytes) color permissions manageEachOther t
    have hnew : 1 ≤ clampPosition t.maxRolePosition position ∧
        clampPosition t.maxRolePosition position ≤ t.ranks.length := by
      rw [clampPosition, hmax]
      omega
    obtain ⟨hranked, hplaced⟩ := ht.update hcur hdef (fun _ => by rfl) (fun _ => by rfl) hnew hu
    have hiff : Updates cur.id rawName position t os ↔
        nextOf os = .ok ∧ committed (roleChange cur (clampPosition t.maxRolePosition position)
          (clampUtf8 rawName maxRoleNameBytes) color permissions manageEachOther).length os.tail := by
      rw [length_roleChange]
      constructor
      · rintro ⟨role, hr, hid, -, -, h⟩
        rwa [role_unique hr hcur hid] at h
      · exact fun h => ⟨cur, hcur, rfl, hdef, Bool.eq_false_iff.2 hname, h⟩
    refine (facing_transact hu).conseq (fun _ h => h) fun _ d' hd' => ⟨hd'.1, ?_⟩
    rw [hd'.2, hiff, ← hmax]
    split
    · exact ⟨hranked, fun _ => hplaced, fun h => absurd ‹_› h⟩
    · exact ⟨ht, fun h => absurd h ‹_›, fun _ => rfl⟩

theorem facing_deleteRole (roleId : Int) (ht : t.Ranked) :
    Triple (Facing Whatever ⟨t, none, os⟩) (deleteRole roleId)
      fun _ d => d.conn.Idle ∧ d.tables.Ranked := by
  have hsame : ∀ d, Facing Whatever ⟨t, none, os⟩ d → d.conn.Idle ∧ d.tables.Ranked := fun d hd =>
    ⟨congrArg Conn.saved hd.conn, hd.tables ▸ ht⟩
  refine .get_bind fun d hd => ?_
  rw [hd.tables]
  cases hfind : t.findRole roleId with
  | none => exact .pure hsame
  | some cur =>
  obtain ⟨hcur, rfl⟩ := Table.find?_eq_some.1 hfind
  refine .ite (fun _ => .pure hsame) fun hdef => facing_invalidatePermCache.bind fun _ => ?_
  refine Triple.bind (Q := fun _ => Facing Whatever ⟨t, none, os⟩) (fun d hd => ⟨trivial, hd.conn⟩)
    fun _ => ?_
  obtain ⟨u, hu⟩ : ∃ u, applyAll (deletion cur.id cur.position) t = some u := ⟨_, rfl⟩
  refine (facing_transact hu).conseq (fun _ h => h) fun _ d' hd' => ⟨hd'.1, ?_⟩
  rw [hd'.2]
  split
  · exact ht.delete hcur (Bool.eq_false_iff.2 hdef) hu
  · exact ht

/-! ## Runs -/

theorem Creates.ranked_iff {lost : Prop} {t' : Tables} (h : Creates lost t t') (ht : t.Ranked) :
    t'.Ranked ↔ (lost → t.ranks = []) := by
  rcases h with ⟨rfl, hno⟩ | ⟨role, u, hd, hp, ⟨hlost, rfl⟩ | ⟨hno, hu⟩, hr⟩
  · exact ⟨fun _ h => absurd h hno, fun _ => ht⟩
  · rw [ht.insert_iff hd hp hr]
    exact ⟨fun h _ => h, fun h => h hlost⟩
  · exact ⟨fun _ h => absurd h hno, fun _ => ht.create hd hp hu hr⟩

/-- The runs of the roles' operations, whatever fails. -/
def roleSystem : System CommunityDb (List Outcome × DbOp) where
  init d := d.Opened ∧ d.tables.Ranked
  step d a d' := a.2.ofRoles = true ∧ d' = d.perform a.1 a.2

/-- A creation whose shift is lost is the first. -/
def KeepsRanks (d : CommunityDb) (a : List Outcome × DbOp) : Prop :=
  match a.2 with
  | .createRole rawName .. => ShiftLost rawName a.1 → d.tables.ranks = []
  | _ => True

theorem perform_ranked {d : CommunityDb} (hidle : d.conn.Idle) (ht : d.tables.Ranked)
    (os : List Outcome) {op : DbOp} (hop : op.ofRoles = true) : (d.perform os op).conn.Idle ∧
      ((d.perform os op).tables.Ranked ↔ d.KeepsRanks (os, op)) := by
  have hf := Facing.of_facing hidle os
  cases op with
  | createRole name color permissions peers =>
    obtain ⟨hidle, hc⟩ := facing_createRole name color permissions peers d.tables os _ hf
    exact ⟨hidle, hc.ranked_iff ht⟩
  | updateRole roleId name color permissions position peers =>
    obtain ⟨hidle, hr, -⟩ := facing_updateRole roleId name color permissions position peers ht _ hf
    exact ⟨hidle, fun _ => trivial, fun _ => hr⟩
  | deleteRole roleId =>
    obtain ⟨hidle, hr⟩ := facing_deleteRole roleId ht _ hf
    exact ⟨hidle, fun _ => trivial, fun _ => hr⟩
  | _ => cases hop

theorem idle_ranked {d : CommunityDb} (hd : (roleSystem.given KeepsRanks).Reachable d) :
    d.conn.Idle ∧ d.tables.Ranked := by
  induction hd with
  | init h => exact ⟨h.1.idle, h.2⟩
  | step a _ hs ih =>
    obtain ⟨⟨hop, rfl⟩, hkeeps⟩ := hs
    obtain ⟨hidle, hiff⟩ := perform_ranked ih.1 ih.2 a.1 hop
    exact ⟨hidle, hiff.2 hkeeps⟩

/-- A server with no role but `everyone`. -/
def fresh : CommunityDb where
  conn := { tables := {
    roles := .ofRows [{ id := 1, name := [101], position := 0, permissions := 0, isDefault := true }]
    roleSequence := 1 } }

theorem init_fresh : roleSystem.init fresh := by
  refine ⟨⟨rfl, by decide +kernel, rfl, rfl, rfl, nofun⟩, by decide +kernel, by decide +kernel⟩

/-- A role is created, the statements being answered in this way. -/
def created (d : CommunityDb) (os : List Outcome) : CommunityDb :=
  d.perform os (.createRole [97] 0 0 false)

theorem reachable_created {C : CommunityDb → List Outcome × DbOp → Prop} {d : CommunityDb}
    (hd : (roleSystem.given C).Reachable d) {os : List Outcome}
    (hC : C d (os, .createRole [97] 0 0 false)) : (roleSystem.given C).Reachable (d.created os) :=
  .step (os, .createRole [97] 0 0 false) hd ⟨⟨rfl, rfl⟩, hC⟩

def threeRoles : CommunityDb := ((fresh.created []).created []).created []

/-- The second creation could not move the first role up. -/
def twoRoles : CommunityDb := (fresh.created []).created [.ok, .fail]

end CommunityDb
end Decibell
