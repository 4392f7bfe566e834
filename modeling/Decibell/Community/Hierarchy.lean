import Decibell.Community.CacheMembers
import Mathlib.Data.Set.Lattice

/-!
# The hierarchy of roles

What a set of members has between them: the permissions that one of them has (`heldBits`) and the
roles that stand above all of them (`above`). A change of the roles is `Confined` to the set when it
adds nothing to the former and takes nothing from the latter.
-/

namespace Decibell

open Lib Lib.Conn Perms List

namespace Tables

/-- `everyone` is at position 0, the others from 1 on; no role or assignment has an id still to be
    given. -/
structure RolesOk (t : Tables) : Prop where
  default : ∀ r ∈ t.roles.rows, r.isDefault = true → r.position = 0
  others : ∀ r ∈ t.roles.rows, r.isDefault = false → 1 ≤ r.position
  ids : ∀ r ∈ t.roles.rows, r.id ≤ t.roleSequence
  assigned : ∀ a ∈ t.memberRoles.rows, a.roleId ≤ t.roleSequence

/-! ## A member's permissions and level -/

section Entry

variable {t t' : Tables} {owner uid : Uid} {i : Nat}

theorem mem_rolesOf {r : DbRole} : r ∈ t.rolesOf uid ↔
    r ∈ t.roles.rows ∧ ⟨uid, r.id⟩ ∈ t.memberRoles.rows := by
  rw [rolesOf, mem_filter, decide_eq_true_iff]

theorem mem_bits_foldl (rows : List (Permissions × Int × Bool)) (acc : Permissions × Int × Bool) :
    i ∈ bits (rows.foldl joinPermRow acc).1 ↔ i ∈ bits acc.1 ∨ ∃ row ∈ rows, i ∈ bits row.1 := by
  induction rows generalizing acc with
  | nil => simp
  | cons row rows ih =>
    have hacc : (joinPermRow acc row).1 = acc.1 ||| row.1 := by
      rw [joinPermRow]
      split <;> rfl
    rw [foldl_cons, ih, hacc, bits_or, Set.mem_union, or_assoc, exists_mem_cons_iff]

theorem level_foldl_lt (rows : List (Permissions × Int × Bool)) (acc : Permissions × Int × Bool)
    (x : Int) :
    (rows.foldl joinPermRow acc).2.1 < x ↔ acc.2.1 < x ∧ ∀ row ∈ rows, row.2.1 < x := by
  induction rows generalizing acc with
  | nil => simp
  | cons row rows ih =>
    have hacc : (joinPermRow acc row).2.1 < x ↔ acc.2.1 < x ∧ row.2.1 < x := by
      rw [joinPermRow]
      split <;> dsimp only <;> omega
    rw [foldl_cons, ih, hacc, forall_mem_cons, and_assoc]

/-- A user's bits, an administrator's not yet all, the owner aside. -/
def baseBits (t : Tables) (uid : Uid) : Set Nat :=
  {i | ∃ r ∈ t.roles.rows, (r.isDefault = true ∨ ⟨uid, r.id⟩ ∈ t.memberRoles.rows) ∧
    i ∈ bits r.permissions}

theorem permissions_permEntry (h : owner ≠ uid) : (t.permEntry owner uid).permissions =
    expand (foldPermRows (t.permRows uid)).1 := by
  rw [permEntry, if_neg fun h' => h h'.2]

theorem mem_bits_foldPermRows :
    i ∈ bits (foldPermRows (t.permRows uid)).1 ↔ i ∈ t.baseBits uid := by
  rw [foldPermRows, mem_bits_foldl, bits_zero, permRows]
  constructor
  · rintro (h | ⟨row, hrow, hi⟩)
    · exact absurd h (Set.notMem_empty i)
    rcases mem_append.1 hrow with hrow | hrow
    · obtain ⟨r, hr, rfl⟩ := mem_map.1 hrow
      obtain ⟨hr, hd⟩ := mem_filter.1 hr
      exact ⟨r, hr, .inl hd, hi⟩
    · obtain ⟨r, hr, rfl⟩ := mem_map.1 hrow
      obtain ⟨hr, ha⟩ := mem_rolesOf.1 hr
      exact ⟨r, hr, .inr ha, hi⟩
  · rintro ⟨r, hr, hd | ha, hi⟩
    · exact .inr ⟨_, mem_append_left _ (mem_map_of_mem (mem_filter.2 ⟨hr, hd⟩)), hi⟩
    · exact .inr ⟨_, mem_append_right _ (mem_map_of_mem (mem_rolesOf.2 ⟨hr, ha⟩)), hi⟩

theorem mem_bits_permEntry (h : owner ≠ uid) : i ∈ bits (t.permEntry owner uid).permissions ↔
    i ∈ t.baseBits uid ∨ 0 ∈ t.baseBits uid ∧ i < 64 := by
  rw [permissions_permEntry h, mem_bits_expand, mem_bits_foldPermRows, mem_bits_foldPermRows]

theorem level_lt (h : owner ≠ uid) {x : Int} : (t.permEntry owner uid).level < x ↔
    0 < x ∧ ∀ r ∈ t.roles.rows, ⟨uid, r.id⟩ ∈ t.memberRoles.rows → r.position < x := by
  have hmax : (t.permEntry owner uid).level = max (foldPermRows (t.permRows uid)).2.1 0 := by
    rw [permEntry, if_neg fun h' => h h'.2]
  rw [hmax, Int.max_lt, foldPermRows, level_foldl_lt, permRows]
  constructor
  · rintro ⟨⟨-, hrows⟩, hx⟩
    refine ⟨hx, fun r hr ha => hrows (r.permissions, r.position, r.manageEachOther) ?_⟩
    exact mem_append_right _ (mem_map.2 ⟨r, mem_rolesOf.2 ⟨hr, ha⟩, rfl⟩)
  · rintro ⟨hx, hroles⟩
    refine ⟨⟨by dsimp only; omega, fun row hrow => ?_⟩, hx⟩
    rcases mem_append.1 hrow with hrow | hrow
    · obtain ⟨r, -, rfl⟩ := mem_map.1 hrow
      exact hx
    · obtain ⟨r, hr, rfl⟩ := mem_map.1 hrow
      obtain ⟨hr, ha⟩ := mem_rolesOf.1 hr
      exact hroles r hr ha

end Entry

/-! ## Confined changes -/

/-- The permissions that a member of `S` has. -/
def heldBits (t : Tables) (owner : Uid) (S : Set Uid) : Set Nat :=
  ⋃ uid ∈ S, bits (t.permEntry owner uid).permissions

/-- The roles above the highest role of every member of `S`. -/
def above (t : Tables) (owner : Uid) (S : Set Uid) : Set DbRole :=
  {r | r ∈ t.roles.rows ∧ ∀ uid ∈ S, (t.permEntry owner uid).level < r.position}

/-- From `t` to `t'` the members of `S` gain nothing, and the roles above them keep permissions,
    holders and order, above them. -/
structure Confined (owner : Uid) (S : Set Uid) (t t' : Tables) : Prop where
  held : t'.heldBits owner S ⊆ t.heldBits owner S
  kept : ∀ r ∈ t.above owner S, ∃ r' ∈ t'.above owner S,
    r'.id = r.id ∧ r'.permissions = r.permissions
  holders : ∀ r ∈ t.above owner S, ∀ uid,
    ⟨uid, r.id⟩ ∈ t'.memberRoles.rows ↔ ⟨uid, r.id⟩ ∈ t.memberRoles.rows
  order : ∀ r ∈ t.above owner S, ∀ s ∈ t.above owner S, ∀ r' ∈ t'.roles.rows,
    ∀ s' ∈ t'.roles.rows, r'.id = r.id → s'.id = s.id →
      (r'.position < s'.position ↔ r.position < s.position)

variable {owner : Uid} {S : Set Uid} {t t' t'' : Tables}

theorem role_unique {r s : DbRole} (hr : r ∈ t.roles.rows) (hs : s ∈ t.roles.rows)
    (h : r.id = s.id) : r = s := Table.eq_of_key hr hs h

theorem Confined.refl : Confined owner S t t where
  held := subset_rfl
  kept r hr := ⟨r, hr, rfl, rfl⟩
  holders _ _ _ := Iff.rfl
  order r hr s hs r' hr' s' hs' hri hsi := by
    rw [role_unique hr' hr.1 hri, role_unique hs' hs.1 hsi]

theorem Confined.trans (h : Confined owner S t t') (h' : Confined owner S t' t'') :
    Confined owner S t t'' where
  held := h'.held.trans h.held
  kept r hr := by
    obtain ⟨r', hr', hid, hp⟩ := h.kept r hr
    obtain ⟨r'', hr'', hid', hp'⟩ := h'.kept r' hr'
    exact ⟨r'', hr'', hid'.trans hid, hp'.trans hp⟩
  holders r hr uid := by
    obtain ⟨r', hr', hid, -⟩ := h.kept r hr
    rw [← h.holders r hr uid, ← hid, h'.holders r' hr' uid]
  order r hr s hs r'' hr'' s'' hs'' hri hsi := by
    obtain ⟨r', hr', hrid, -⟩ := h.kept r hr
    obtain ⟨s', hs', hsid, -⟩ := h.kept s hs
    rw [← h.order r hr s hs r' hr'.1 s' hs'.1 hrid hsid]
    exact h'.order r' hr' s' hs' r'' hr'' s'' hs'' (hri.trans hrid.symm) (hsi.trans hsid.symm)

/-! ## What one member can do -/

/-- A member of level `level` with `perms` changes roles. -/
structure RoleStep (level : Int) (perms : Permissions) (t t' : Tables) : Prop where
  /-- A role that is there afterwards was there, or nobody has it. -/
  origin : ∀ r' ∈ t'.roles.rows,
    (r'.isDefault = false ∧ ∀ uid, ⟨uid, r'.id⟩ ∉ t'.memberRoles.rows) ∨
    ∃ r ∈ t.roles.rows, r'.id = r.id ∧ r'.isDefault = r.isDefault ∧
      bits r'.permissions ⊆ bits r.permissions ∪ bits perms
  /-- Given are only lower roles, of permissions the member has. -/
  given : ∀ a ∈ t'.memberRoles.rows, a ∈ t.memberRoles.rows ∨
    ∃ r ∈ t.roles.rows, r.id = a.roleId ∧ r.position < level ∧ bits r.permissions ⊆ bits perms
  kept : ∀ r ∈ t.roles.rows, level < r.position → ∃ r' ∈ t'.roles.rows,
    r'.id = r.id ∧ r'.permissions = r.permissions
  holders : ∀ r ∈ t.roles.rows, level < r.position → ∀ uid,
    ⟨uid, r.id⟩ ∈ t'.memberRoles.rows ↔ ⟨uid, r.id⟩ ∈ t.memberRoles.rows
  /-- Whatever is below a role above the member stays below it. -/
  order : ∀ r ∈ t.roles.rows, ∀ s ∈ t.roles.rows, ∀ r' ∈ t'.roles.rows, ∀ s' ∈ t'.roles.rows,
    r'.id = r.id → s'.id = s.id → level < s.position → r.position < s.position →
      r'.position < s'.position
  /-- Two roles above the member are not put in another order. -/
  tied : ∀ r ∈ t.roles.rows, ∀ s ∈ t.roles.rows, ∀ r' ∈ t'.roles.rows, ∀ s' ∈ t'.roles.rows,
    r'.id = r.id → s'.id = s.id → level < s.position → s.position ≤ r.position →
      s'.position ≤ r'.position

variable {level : Int} {perms : Permissions} {actor : Uid}

theorem RoleStep.confined (h : RoleStep level perms t t') (ht : t.RolesOk) (ht' : t'.RolesOk)
    (hS : owner ∉ S) (ha : actor ∈ S) (hl : (t.permEntry owner actor).level = level)
    (hp : (t.permEntry owner actor).permissions = perms) : Confined owner S t t' := by
  have hne : ∀ uid ∈ S, owner ≠ uid := fun uid hu he => hS (he ▸ hu)
  have hperms : bits perms ⊆ t.heldBits owner S := hp ▸ Set.subset_biUnion_of_mem (u := fun uid =>
    bits (t.permEntry owner uid).permissions) ha
  have habove : ∀ r ∈ t.above owner S, level < r.position := fun r hr => hl ▸ hr.2 actor ha
  -- a bit a member of `S` has afterwards comes from a role they had, or is the actor's
  have hbase : ∀ uid ∈ S, t'.baseBits uid ⊆ t.heldBits owner S := by
    rintro uid hu i ⟨r', hr', hhas, hi⟩
    rcases h.origin r' hr' with ⟨hd, hno⟩ | ⟨r, hr, hid, hd, hb⟩
    · rcases hhas with hd' | hhas
      · exact absurd (hd.symm.trans hd') Bool.false_ne_true
      · exact absurd hhas (hno uid)
    rcases hb hi with hi | hi
    · have hown : (r.isDefault = true ∨ ⟨uid, r.id⟩ ∈ t.memberRoles.rows) ∨
          bits r.permissions ⊆ bits perms := by
        rcases hhas with hd' | hhas
        · exact .inl (.inl (hd ▸ hd'))
        rcases h.given _ hhas with ha | ⟨s, hs, hsid, -, hsb⟩
        · exact .inl (.inr (hid ▸ ha))
        · rw [role_unique hr hs (hid.symm.trans hsid.symm)]
          exact .inr hsb
      rcases hown with hown | hb
      · refine Set.mem_biUnion hu ?_
        rw [mem_bits_permEntry (hne uid hu)]
        exact .inl ⟨r, hr, hown, hi⟩
      · exact hperms (hb hi)
    · exact hperms hi
  have hbelow : ∀ r ∈ t.above owner S, ∀ r' ∈ t'.roles.rows, r'.id = r.id →
      r' ∈ t'.above owner S := by
    intro r hr r' hr' hid
    refine ⟨hr', fun uid hu => ?_⟩
    obtain ⟨hpos, hroles⟩ := (level_lt (hne uid hu)).1 (hr.2 uid hu)
    rw [level_lt (hne uid hu)]
    constructor
    · rcases h.origin r' hr' with ⟨hd, -⟩ | ⟨s, hs, hsid, hd, -⟩
      · exact ht'.others r' hr' hd
      · obtain rfl := role_unique hs hr.1 (hsid.symm.trans hid)
        cases hsd : s.isDefault with
        | false => exact ht'.others r' hr' (hd.trans hsd)
        | true => have := ht.default s hs hsd; omega
    · intro s' hs' hhas
      rcases h.origin s' hs' with ⟨-, hno⟩ | ⟨s, hs, hsid, -, -⟩
      · exact absurd hhas (hno uid)
      refine h.order s hs r hr.1 s' hs' r' hr' hsid hid (habove r hr) ?_
      rcases h.given _ hhas with ha | ⟨q, hq, hqid, hql, -⟩
      · exact hroles s hs (hsid ▸ ha)
      · rw [role_unique hs hq (hsid.symm.trans hqid.symm)]
        exact hql.trans (habove r hr)
  constructor
  · refine Set.iUnion₂_subset fun uid hu i hi => ?_
    rw [mem_bits_permEntry (hne uid hu)] at hi
    rcases hi with hi | ⟨h0, hlt⟩
    · exact hbase uid hu hi
    · -- an administrator afterwards was one before, or another member of `S` was
      obtain ⟨v, hv, h0⟩ := Set.mem_iUnion₂.1 (hbase uid hu h0)
      refine Set.mem_iUnion₂.2 ⟨v, hv, ?_⟩
      rw [mem_bits_permEntry (hne v hv)] at h0 ⊢
      exact .inr ⟨h0.elim id And.left, hlt⟩
  · intro r hr
    obtain ⟨r', hr', hid, hperm⟩ := h.kept r hr.1 (habove r hr)
    exact ⟨r', hbelow r hr r' hr' hid, hid, hperm⟩
  · exact fun r hr uid => h.holders r hr.1 (habove r hr) uid
  · intro r hr s hs r' hr' s' hs' hri hsi
    refine ⟨fun hlt => ?_, h.order r hr.1 s hs.1 r' hr' s' hs' hri hsi (habove s hs)⟩
    by_contra hle
    have := h.tied r hr.1 s hs.1 r' hr' s' hs' hri hsi (habove s hs) (not_lt.1 hle)
    omega

end Tables
end Decibell
