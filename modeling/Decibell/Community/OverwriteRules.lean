import Decibell.Community.OverwriteHandlers
import Decibell.Community.SyncRuns

/-!
# What a change of overwrites does

The bits that a channel's rows allow and deny a target (`bitsIn`), and what the three writers of a
channel's rows make of the table: `Sets` for one row, `Wrote` for all of them.
-/

namespace Decibell

open Lib Lib.Conn ChannelLayout List

/-! ## Bits of a list of rows -/

section Bits

variable {rows own category : List DbOverwrite} {targetType : Int} {targetId : String}

/-- The row is for this target. -/
def DbOverwrite.isFor (targetType : Int) (targetId : String) (ow : DbOverwrite) : Bool :=
  ow.targetType = targetType && ow.targetId = targetId

/-- What a row allows and denies. -/
def DbOverwrite.bits (ow : DbOverwrite) : Permissions × Permissions := (ow.allow, ow.deny)

/-- No two rows are for the same target. -/
def OnePerTarget (rows : List DbOverwrite) : Prop :=
  (rows.map fun ow => (ow.targetType, ow.targetId)).Nodup

theorem OnePerTarget.tail {ow : DbOverwrite} (h : OnePerTarget (ow :: rows)) : OnePerTarget rows :=
  (nodup_cons.1 h).2

theorem OnePerTarget.find?_tail {ow : DbOverwrite} (h : OnePerTarget (ow :: rows))
    (how : ow.isFor targetType targetId = true) : rows.find? (·.isFor targetType targetId) = none := by
  refine find?_eq_none.2 fun r hr hfor => (nodup_cons.1 h).1 (mem_map.2 ⟨r, hr, ?_⟩)
  simp only [DbOverwrite.isFor, Bool.and_eq_true, decide_eq_true_eq] at how hfor
  exact Prod.ext (hfor.1.trans how.1.symm) (hfor.2.trans how.2.symm)

theorem foldl_currentBits (h : OnePerTarget rows) (cur : Permissions × Permissions) :
    rows.foldl (fun cur existing =>
      if existing.targetType = targetType ∧ existing.targetId = targetId then
        (existing.allow, existing.deny)
      else cur) cur = ((rows.find? (·.isFor targetType targetId)).map DbOverwrite.bits).getD cur := by
  induction rows generalizing cur with
  | nil => rfl
  | cons ow rows ih =>
    rw [foldl_cons, ih h.tail, find?_cons]
    cases how : ow.isFor targetType targetId with
    | true =>
      rw [h.find?_tail how]
      simp only [DbOverwrite.isFor, Bool.and_eq_true, decide_eq_true_eq] at how
      rw [if_pos how]
      rfl
    | false =>
      simp only [DbOverwrite.isFor, Bool.and_eq_false_iff, decide_eq_false_iff_not] at how
      rw [if_neg (by tauto)]

theorem currentBits_eq (h : OnePerTarget rows) : currentBits rows targetType targetId =
    ((rows.find? (·.isFor targetType targetId)).map DbOverwrite.bits).getD (0, 0) :=
  foldl_currentBits h (0, 0)

theorem foldl_xorBits (h : OnePerTarget rows) (r : Permissions × Permissions) :
    rows.foldl (fun r ow =>
      if ow.targetType = targetType ∧ ow.targetId = targetId then
        (r.1 ^^^ ow.allow, r.2 ^^^ ow.deny)
      else r) r = (r.1 ^^^ (currentBits rows targetType targetId).1,
        r.2 ^^^ (currentBits rows targetType targetId).2) := by
  rw [currentBits_eq h]
  induction rows generalizing r with
  | nil => simp
  | cons ow rows ih =>
    rw [foldl_cons, ih h.tail, find?_cons]
    cases how : ow.isFor targetType targetId with
    | true =>
      rw [h.find?_tail how]
      simp only [DbOverwrite.isFor, Bool.and_eq_true, decide_eq_true_eq] at how
      rw [if_pos how]
      simp [DbOverwrite.bits]
    | false =>
      simp only [DbOverwrite.isFor, Bool.and_eq_false_iff, decide_eq_false_iff_not] at how
      rw [if_neg (by tauto)]

theorem xorBits_append (hown : OnePerTarget own) (hcategory : OnePerTarget category) :
    xorBits (own ++ category) targetType targetId =
      ((currentBits own targetType targetId).1 ^^^ (currentBits category targetType targetId).1,
        (currentBits own targetType targetId).2 ^^^ (currentBits category targetType targetId).2) := by
  rw [xorBits, foldl_append, foldl_xorBits hown, foldl_xorBits hcategory]
  simp

theorem bits_foldl_or {α : Type} {l : List α} (f : α → Permissions) (p : Permissions) :
    Perms.bits p ⊆ Perms.bits (l.foldl (fun acc x => acc ||| f x) p) ∧
      ∀ x ∈ l, Perms.bits (f x) ⊆ Perms.bits (l.foldl (fun acc x => acc ||| f x) p) := by
  induction l generalizing p with
  | nil => exact ⟨fun _ h => h, by simp⟩
  | cons a l ih =>
    obtain ⟨hp, hl⟩ := ih (p ||| f a)
    rw [Perms.bits_or, Set.union_subset_iff] at hp
    refine ⟨hp.1, fun x hx => ?_⟩
    rcases mem_cons.1 hx with rfl | hx
    · exact hp.2
    · exact hl x hx

theorem changedBits_subset (hown : OnePerTarget own) (hcategory : OnePerTarget category)
    (targetType : Int) (targetId : String) :
    Perms.bits (changedBits (currentBits own targetType targetId)
      (currentBits category targetType targetId)) ⊆ Perms.bits (differingBits own category) := by
  by_cases hrow : ∃ ow ∈ own ++ category, ow.isFor targetType targetId = true
  · obtain ⟨ow, how, hfor⟩ := hrow
    simp only [DbOverwrite.isFor, Bool.and_eq_true, decide_eq_true_eq] at hfor
    obtain ⟨rfl, rfl⟩ := hfor
    have hsub := (bits_foldl_or (fun ow : DbOverwrite =>
      (xorBits (own ++ category) ow.targetType ow.targetId).1 |||
        (xorBits (own ++ category) ow.targetType ow.targetId).2) 0).2 ow how
    rw [xorBits_append hown hcategory] at hsub
    rw [changedBits, BitVec.xor_comm _ (currentBits own _ _).1, BitVec.xor_comm _ (currentBits own _ _).2]
    exact hsub
  · -- a target without rows has no bits on either side
    have hnone : ∀ {rows}, rows ⊆ own ++ category →
        rows.find? (·.isFor targetType targetId) = none := fun hsub =>
      find?_eq_none.2 fun ow how hfor => hrow ⟨ow, hsub how, hfor⟩
    rw [currentBits_eq hown, currentBits_eq hcategory, hnone (subset_append_left _ _),
      hnone (subset_append_right _ _)]
    intro i hi
    simp [changedBits, Perms.mem_bits] at hi

end Bits

namespace Tables

variable {t t' u : Tables} {id k : String} {targetType : Int} {targetId : String}

/-- What a target is allowed and denied in a channel. -/
def bitsIn (t : Tables) (id : String) (targetType : Int) (targetId : String) :
    Permissions × Permissions :=
  currentBits (t.overwritesOf (t.layout.source id)) targetType targetId

theorem onePerTarget (t : Tables) (k : String) : OnePerTarget (t.overwritesOf k) := by
  have hn := (List.Nodup.of_map _ t.overwrites.nodup).filter (·.channelId = k)
  refine List.Nodup.map_on (fun a ha b hb hab => ?_) hn
  obtain ⟨ha, hac⟩ := mem_filter.1 ha
  obtain ⟨hb, hbc⟩ := mem_filter.1 hb
  refine Table.eq_of_key ha hb (Prod.ext ?_ hab)
  exact (of_decide_eq_true hac).trans (of_decide_eq_true hbc).symm

theorem find?_overwritesOf (t : Tables) (k : String) (targetType : Int) (targetId : String) :
    (t.overwritesOf k).find? (·.isFor targetType targetId) =
      t.overwrites.find? (k, targetType, targetId) := by
  rw [overwritesOf, find?_filter, Table.find?]
  congr 1
  funext ow
  simp [DbOverwrite.isFor, DbOverwrite.key]

theorem currentBits_overwritesOf (t : Tables) (k : String) (targetType : Int) (targetId : String) :
    currentBits (t.overwritesOf k) targetType targetId =
      ((t.overwrites.find? (k, targetType, targetId)).map DbOverwrite.bits).getD (0, 0) := by
  rw [currentBits_eq (t.onePerTarget k), find?_overwritesOf]

/-! ## Flags -/

/-- The channel `id` is set to be synced or not. -/
def flag (id : String) (synced : Bool) (c : DbChannel) : DbChannel :=
  if c.id = id then { c with permSynced := synced } else c

theorem flags_flag (id : String) (synced : Bool) : Flags (flag id synced) := by
  constructor <;> intro c <;> rw [flag] <;> split <;> rfl

theorem flag_flag (id : String) (a b : Bool) (c : DbChannel) :
    flag id b (flag id a c) = flag id b c := by
  by_cases h : c.id = id
  · simp [flag, h]
  · simp [flag, h]

theorem map_flag_of_forall {b : Bool} (h : ∀ c ∈ t.channels.rows, c.id = id → c.permSynced = b) :
    t.channels.rows.map (flag id b) = t.channels.rows := by
  refine (map_congr_left fun c hc => ?_).trans (map_id _)
  rw [flag, id_eq]
  split
  · rw [← h c hc ‹_›]
  · rfl

section Reflagged

variable {f : DbChannel → DbChannel} (hf : Flags f) (hcat : ∀ c, (f c).categorySync = c.categorySync)
  (hrows : t'.channels.rows = t.channels.rows.map f)
include hf hrows

theorem ordered_of_flags : t'.ordered = t.ordered.map f :=
  ordered_of_map (fun c => ⟨hf.id c, hf.position c⟩) hrows

theorem find?_ordered_of_flags (k : String) :
    t'.ordered.find? (·.id = k) = (t.ordered.find? (·.id = k)).map f := by
  have hpred : ((fun c : DbChannel => decide (c.id = k)) ∘ f) = fun c => decide (c.id = k) :=
    funext fun c => by rw [Function.comp_apply, hf.id]
  rw [ordered_of_flags hf hrows, find?_map, hpred]

theorem parentOf_of_flags (k : String) : t'.layout.parentOf.find? k = t.layout.parentOf.find? k := by
  rw [layout, layout, find?_parentOf_ofRows t'.nodup_ordered, find?_parentOf_ofRows t.nodup_ordered,
    ordered_of_flags hf hrows, parentIn_congr (outline_map (fun c => ⟨hf.id c, hf.type c⟩) _)]

include hcat in
theorem categorySyncOf_of_flags (k : String) :
    t'.layout.categorySyncOf.find? k = t.layout.categorySyncOf.find? k := by
  have hpred : ((fun c : DbChannel => decide (c.id = k) && decide (c.type = .category)) ∘ f) =
      fun c => decide (c.id = k) && decide (c.type = .category) :=
    funext fun c => by rw [Function.comp_apply, hf.id, hf.type]
  have hsync : DbChannel.categorySync ∘ f = DbChannel.categorySync := funext hcat
  rw [layout, layout, find?_categorySyncOf t'.nodup_ordered, find?_categorySyncOf t.nodup_ordered,
    ordered_of_flags hf hrows, find?_map, hpred, Option.map_map, hsync]

include hcat in
theorem source_of_flags {k : String} (hk : ∀ c, c.id = k → f c = c) :
    t'.layout.source k = t.layout.source k := by
  have hsynced : t'.layout.syncedOf.find? k = t.layout.syncedOf.find? k := by
    rw [layout, layout, find?_syncedOf t'.nodup_ordered, find?_syncedOf t.nodup_ordered,
      find?_ordered_of_flags hf hrows]
    cases hc : t.ordered.find? (·.id = k) with
    | none => rfl
    | some c =>
      have hid : c.id = k := by simpa using find?_some hc
      rw [Option.map_some, hk c hid]
  rw [source, source, parentOf_of_flags hf hrows, hsynced]
  simp only [categorySyncOf_of_flags hf hcat hrows]

end Reflagged

/-! ## Writing one row -/

structure SamePeople (t t' : Tables) : Prop where
  roles : t'.roles = t.roles
  members : t'.members = t.members
  memberRoles : t'.memberRoles = t.memberRoles

theorem SamePeople.refl (t : Tables) : SamePeople t t := ⟨rfl, rfl, rfl⟩

theorem SamePeople.trans {t'' : Tables} (h : SamePeople t t') (h' : SamePeople t' t'') :
    SamePeople t t'' :=
  ⟨h'.roles.trans h.roles, h'.members.trans h.members, h'.memberRoles.trans h.memberRoles⟩

theorem preserves_writeOwn {rows : List DbOverwrite} {synced : Bool} {stmt : Stmt}
    (hs : stmt ∈ writeOwnOverwrites id rows synced) : Preserves (SamePeople t) stmt := by
  intro u u' hu hsu
  rw [writeOwn_eq, mem_append, mem_cons, mem_singleton] at hs
  rcases hs with (rfl | hs) | rfl
  · cases hsu
    exact ⟨hu.roles, hu.members, hu.memberRoles⟩
  · obtain ⟨r, -, rfl⟩ := mem_map.1 hs
    obtain ⟨overwrites, -, rfl⟩ := Option.map_eq_some_iff.1 hsu
    exact ⟨hu.roles, hu.members, hu.memberRoles⟩
  · cases hsu
    exact ⟨hu.roles, hu.members, hu.memberRoles⟩

theorem people_of_writeOwn {rows : List DbOverwrite} {synced : Bool}
    (h : applyAll (writeOwnOverwrites id rows synced) t = some t') : SamePeople t t' :=
  Preserves.applyAll (fun _ hs => preserves_writeOwn hs) (.refl t) h

/-- One row of a channel is set, the category's being its own from there on; one of no bits is none.
    -/
structure Sets (ow : DbOverwrite) (t t' : Tables) : Prop where
  flags : t'.channels.rows = t.channels.rows.map (flag ow.channelId false)
  own : ∀ targetType targetId, t'.overwrites.find? (ow.channelId, targetType, targetId) =
    if ow.isFor targetType targetId then if ow.allow = 0 ∧ ow.deny = 0 then none else some ow
    else (t.overwrites.find? (t.layout.source ow.channelId, targetType, targetId)).map
      (.of ow.channelId)
  edits : Edits ow.channelId t t'
  people : SamePeople t t'

theorem Wrote.find? {rows : List DbOverwrite} {synced : Bool} (h : Wrote id rows synced t t')
    (targetType : Int) (targetId : String) : t'.overwrites.find? (id, targetType, targetId) =
      (rows.find? (·.isFor targetType targetId)).map (.of id) := by
  rw [← find?_overwritesOf, h.own, find?_map]
  rfl

theorem find?_of_channel (key : String × Int × String) :
    (t.overwrites.find? key).map (.of key.1) = t.overwrites.find? key := by
  cases h : t.overwrites.find? key with
  | none => rfl
  | some ow =>
    have hkey := (Table.find?_eq_some.1 h).2
    rw [Option.map_some, DbOverwrite.of, ← hkey]

theorem find?_write {ow : DbOverwrite}
    (h : (if ow.allow = 0 ∧ ow.deny = 0 then deleteOverwrites (·.key = ow.key) else upsertOverwrite ow)
      t = some t') (targetType : Int) (targetId : String) :
    t'.overwrites.find? (ow.channelId, targetType, targetId) =
      if ow.isFor targetType targetId then if ow.allow = 0 ∧ ow.deny = 0 then none else some ow
      else t.overwrites.find? (ow.channelId, targetType, targetId) := by
  have hkey : ow.isFor targetType targetId = true ↔
      ((ow.channelId, targetType, targetId) : String × Int × String) = ow.key := by
    simp only [DbOverwrite.isFor, DbOverwrite.key, Bool.and_eq_true, decide_eq_true_eq,
      Prod.mk.injEq, true_and]
    exact and_congr eq_comm eq_comm
  by_cases hzero : ow.allow = 0 ∧ ow.deny = 0
  · rw [if_pos hzero] at h
    cases h
    rw [Table.find?_deleteWhere_key]
    simp only [hkey, hzero, and_self, if_true]
  · rw [if_neg hzero] at h
    cases h
    simp only [hkey, hzero, if_false]
    split
    · rename_i heq
      rw [heq]
      exact Table.find?_upsert
    · exact Table.find?_upsert_of_ne ‹_›

theorem people_of_applyAll {channel : DbChannel} {ow : DbOverwrite} {inherited : List DbOverwrite}
    (h : applyAll ((if inherited = [] then [] else writeOwnOverwrites ow.channelId inherited false) ++
      (if channel.type = .category then [] else [setPermSynced ow.channelId false]) ++
      [if ow.allow = 0 ∧ ow.deny = 0 then deleteOverwrites (·.key = ow.key) else upsertOverwrite ow])
        t = some t') : SamePeople t t' := by
  refine Preserves.applyAll (fun stmt hs => ?_) (.refl t) h
  rw [mem_append, mem_append, mem_singleton] at hs
  rcases hs with (hs | hs) | rfl
  · split at hs
    · cases hs
    · exact preserves_writeOwn hs
  · split at hs
    · cases hs
    · cases mem_singleton.1 hs
      rintro u _ hu ⟨⟩
      exact ⟨hu.roles, hu.members, hu.memberRoles⟩
  · split <;> rintro u _ hu ⟨⟩ <;> exact ⟨hu.roles, hu.members, hu.memberRoles⟩

theorem sets_of_applyAll {channel : DbChannel} {ow : DbOverwrite} {inherited : List DbOverwrite}
    (ht : SyncInv t) (hc : channel ∈ t.channels.rows) (how : ow.channelId = channel.id)
    (hrows : inherited = if t.layout.source ow.channelId ≠ ow.channelId then
      t.overwritesOf (t.layout.source ow.channelId) else [])
    (h : applyAll ((if inherited = [] then [] else writeOwnOverwrites ow.channelId inherited false) ++
      (if channel.type = .category then [] else [setPermSynced ow.channelId false]) ++
      [if ow.allow = 0 ∧ ow.deny = 0 then deleteOverwrites (·.key = ow.key) else upsertOverwrite ow])
        t = some t') : Sets ow t t' := by
  have hpeople := people_of_applyAll h
  have hedits := (CommunityDb.edits_setOverwrite ht hc how h).1
  rw [applyAll_append, applyAll_append] at h
  obtain ⟨u₂, h₂, h₃⟩ := Option.bind_eq_some_iff.1 h
  obtain ⟨u₁, h₁, h₂⟩ := Option.bind_eq_some_iff.1 h₂
  have h₃ : (if ow.allow = 0 ∧ ow.deny = 0 then deleteOverwrites (·.key = ow.key)
      else upsertOverwrite ow) u₂ = some t' := by simpa [applyAll] using h₃
  -- the channel has as its own what applied to it
  have hcopy : u₁.channels.rows.map (flag ow.channelId false) =
        t.channels.rows.map (flag ow.channelId false) ∧
      ∀ targetType targetId, u₁.overwrites.find? (ow.channelId, targetType, targetId) =
        (t.overwrites.find? (t.layout.source ow.channelId, targetType, targetId)).map
          (.of ow.channelId) := by
    by_cases hnil : inherited = []
    · rw [if_pos hnil] at h₁
      cases h₁
      refine ⟨rfl, fun targetType targetId => ?_⟩
      by_cases hsource : t.layout.source ow.channelId = ow.channelId
      · rw [hsource]
        exact (find?_of_channel (ow.channelId, targetType, targetId)).symm
      · rw [if_pos hsource, hnil] at hrows
        obtain ⟨c, hc, hid, hs⟩ := (follows_of_source t.nodup_ordered rfl hsource).synced
        have hown := ht.noRows c (mem_ordered.1 hc) hs
        rw [hid] at hown
        rw [← find?_overwritesOf, ← find?_overwritesOf, hown, ← hrows]
        rfl
    · rw [if_neg hnil] at h₁
      have hw := wrote_of_applyAll h₁
      refine ⟨?_, fun targetType targetId => ?_⟩
      · rw [hw.flags, map_map]
        exact map_congr_left fun c _ => flag_flag _ false false c
      · rw [hw.find?, hrows, if_pos, find?_overwritesOf]
        intro hsource
        rw [if_neg (not_not.2 hsource)] at hrows
        exact hnil hrows
  have hunsync : u₂.channels.rows = t.channels.rows.map (flag ow.channelId false) ∧
      u₂.overwrites = u₁.overwrites := by
    split at h₂
    · cases h₂
      refine ⟨?_, rfl⟩
      have hu := ht.unsynced_of_category hc ‹_›
      rw [← how] at hu
      have hsource := source_of_unsynced hu
      rw [if_neg (not_not.2 hsource)] at hrows
      rw [if_pos hrows] at h₁
      cases h₁
      exact (map_flag_of_forall hu).symm
    · have h₂ : setPermSynced ow.channelId false u₁ = some u₂ := by simpa [applyAll] using h₂
      cases h₂
      refine ⟨?_, rfl⟩
      rw [← hcopy.1]
      exact map_congr_left fun c _ => by simp [flag]
  refine ⟨(CommunityDb.edits_write h₃).2 ▸ hunsync.1, fun targetType targetId => ?_, hedits, hpeople⟩
  rw [find?_write h₃, hunsync.2, hcopy.2]

/-! ## What is kept -/

/-- The same channels and rows, in whatever order. -/
structure SameOverwrites (t t' : Tables) : Prop where
  channels : t'.channels = t.channels
  rows : ∀ key, t'.overwrites.find? key = t.overwrites.find? key

theorem SameOverwrites.refl (t : Tables) : SameOverwrites t t := ⟨rfl, fun _ => rfl⟩

theorem SameOverwrites.of_channel (id : String) (hc : t'.channels.rows = t.channels.rows)
    (hown : ∀ targetType targetId, t'.overwrites.find? (id, targetType, targetId) =
      t.overwrites.find? (id, targetType, targetId))
    (hother : ∀ k, k ≠ id → t'.overwritesOf k = t.overwritesOf k) : SameOverwrites t t' := by
  refine ⟨Table.ext_rows hc, fun key => ?_⟩
  obtain ⟨k, targetType, targetId⟩ := key
  by_cases hk : k = id
  · rw [hk]
    exact hown targetType targetId
  · rw [← find?_overwritesOf, ← find?_overwritesOf, hother k hk]

/-- Only the flags of the channels `ids` are other than before. -/
structure Reflags (ids : List String) (f : DbChannel → DbChannel) : Prop where
  only : ∀ c, f c = { c with permSynced := (f c).permSynced }
  other : ∀ c, c.id ∉ ids → f c = c

/-- In `ids` only bits of `perms` differ, for any target; others have the rows and flag they had. -/
structure Permitted (perms : String → Permissions) (ids : List String) (t t' : Tables) : Prop where
  held : ∀ id ∈ ids, ∀ targetType targetId,
    Perms.bits (changedBits (t.bitsIn id targetType targetId) (t'.bitsIn id targetType targetId)) ⊆
      Perms.bits (perms id)
  rows : ∀ k ∉ ids, t'.overwritesOf k = t.overwritesOf k
  flags : ∃ f, Reflags ids f ∧ t'.channels.rows = t.channels.rows.map f

theorem changedBits_self (b : Permissions × Permissions) : changedBits b b = 0 := by
  simp [changedBits]

theorem bitsIn_congr (hs : t'.layout.source k = t.layout.source k)
    (hr : t'.overwritesOf (t.layout.source k) = t.overwritesOf (t.layout.source k)) :
    t'.bitsIn k targetType targetId = t.bitsIn k targetType targetId := by
  rw [bitsIn, bitsIn, hs, hr]

section Permitted

variable {perms : String → Permissions} {ids ids' : List String} {f g : DbChannel → DbChannel}

theorem Reflags.flags (h : Reflags ids f) : Flags f := by
  constructor <;> intro c <;> rw [h.only]

theorem Reflags.categorySync (h : Reflags ids f) (c : DbChannel) :
    (f c).categorySync = c.categorySync := by
  rw [h.only]

theorem Reflags.comp (h : Reflags ids f) (h' : Reflags ids' g) : Reflags (ids ++ ids') (g ∘ f) := by
  refine ⟨fun c => ?_, fun c hc => ?_⟩
  · rw [Function.comp_apply, h'.only, h.only c]
  · rw [mem_append, not_or] at hc
    rw [Function.comp_apply, h.other c hc.1, h'.other c hc.2]

theorem Reflags.same (ids : List String) : Reflags ids fun c => c := ⟨fun _ => rfl, fun _ _ => rfl⟩

theorem reflags_flag (id : String) (b : Bool) : Reflags [id] (flag id b) := by
  refine ⟨fun c => ?_, fun c hc => if_neg (mt mem_singleton.2 hc)⟩
  by_cases h : c.id = id <;> simp [flag, h]

theorem Permitted.source (h : Permitted perms ids t t') (hk : k ∉ ids) :
    t'.layout.source k = t.layout.source k := by
  obtain ⟨f, hf, hrows⟩ := h.flags
  exact source_of_flags hf.flags hf.categorySync hrows fun c hc => hf.other c (hc.symm ▸ hk)

theorem Permitted.keys (h : Permitted perms ids t t') : t'.channels.keys = t.channels.keys := by
  obtain ⟨f, hf, hrows⟩ := h.flags
  exact hf.flags.keys hrows

theorem Permitted.follows (h : Permitted perms ids t t') (hk : id ∉ ids) (hf : Follows t.ordered id k) :
    Follows t'.ordered id k := by
  refine follows_of_source t'.nodup_ordered ?_ (ne_of_parentIn t.nodup_ordered hf.under hf.named)
  exact (h.source hk).trans (source_of_follows hf)

theorem Permitted.unsynced (h : Permitted perms ids t t') (hk : id ∉ ids) (hu : t'.Unsynced id) :
    t.Unsynced id := by
  obtain ⟨f, hf, hrows⟩ := h.flags
  intro c hc hid
  refine hu c ?_ hid
  have hmem : f c ∈ t'.channels.rows := hrows ▸ mem_map_of_mem hc
  rwa [hf.other c (hid ▸ hk)] at hmem

theorem Permitted.parentOf (h : Permitted perms ids t t') (k : String) :
    t'.layout.parentOf.find? k = t.layout.parentOf.find? k := by
  obtain ⟨f, hf, hrows⟩ := h.flags
  exact parentOf_of_flags hf.flags hrows k

theorem Permitted.refl (perms : String → Permissions) (t : Tables) : Permitted perms [] t t :=
  ⟨forall_mem_nil _, fun _ _ => rfl, _, .same [], (map_id _).symm⟩

theorem Permitted.append (h : Permitted perms ids t t') (h' : Permitted perms ids' t' u)
    (hnew : ∀ k ∈ ids', k ∉ ids ∧ t.layout.source k ∉ ids)
    (hold : ∀ j ∈ ids, t'.layout.source j ∉ ids') : Permitted perms (ids ++ ids') t u := by
  refine ⟨fun j hj targetType targetId => ?_, fun k hk => ?_, ?_⟩
  · by_cases hj' : j ∈ ids'
    · obtain ⟨hid, hsource⟩ := hnew j hj'
      rw [← bitsIn_congr (h.source hid) (h.rows _ hsource)]
      exact h'.held j hj' targetType targetId
    · have hj := (mem_append.1 hj).resolve_right hj'
      rw [bitsIn_congr (h'.source hj') (h'.rows _ (hold j hj))]
      exact h.held j hj targetType targetId
  · rw [mem_append, not_or] at hk
    rw [h'.rows k hk.2, h.rows k hk.1]
  · obtain ⟨f, hf, hrows⟩ := h.flags
    obtain ⟨g, hg, hrows'⟩ := h'.flags
    exact ⟨g ∘ f, hf.comp hg, by rw [hrows', hrows, map_map]⟩

theorem Permitted.same (h : Permitted perms [] t t') : SameOverwrites t t' := by
  obtain ⟨f, hf, hrows⟩ := h.flags
  refine ⟨Table.ext_rows ?_, fun key => ?_⟩
  · exact hrows.trans ((map_congr_left fun c _ => hf.other c not_mem_nil).trans
      (map_id _))
  · obtain ⟨k, targetType, targetId⟩ := key
    rw [← find?_overwritesOf, ← find?_overwritesOf, h.rows k not_mem_nil]

theorem Permitted.of_nil (h : Permitted perms [] t t') (ids : List String) : Permitted perms ids t t' := by
  refine ⟨fun j _ targetType targetId => ?_, fun k _ => h.rows k not_mem_nil, ?_⟩
  · rw [bitsIn_congr (h.source not_mem_nil) (h.rows _ not_mem_nil), changedBits_self,
      Perms.bits_zero]
    exact Set.empty_subset _
  · obtain ⟨f, hf, hrows⟩ := h.flags
    exact ⟨f, ⟨hf.only, fun c _ => hf.other c not_mem_nil⟩, hrows⟩

end Permitted

/-- As `setOverwrite` writes it: defined bits, none both ways, not all zero. -/
def ProperRow (ow : DbOverwrite) : Prop :=
  CommunityDb.maskOverwrite ow = ow ∧ ¬(ow.allow = 0 ∧ ow.deny = 0)

theorem mask_eq_iff {ow : DbOverwrite} : CommunityDb.maskOverwrite ow = ow ↔
    ow.deny &&& Perms.kKnownMask = ow.deny ∧
      ow.allow &&& Perms.kKnownMask &&& ~~~(ow.deny &&& Perms.kKnownMask) = ow.allow := by
  cases ow
  simp only [CommunityDb.maskOverwrite, DbOverwrite.mk.injEq, true_and]
  exact and_comm

theorem ProperRow.congr {r ow : DbOverwrite} (h : ProperRow r) (hallow : r.allow = ow.allow)
    (hdeny : r.deny = ow.deny) : ProperRow ow := by
  rw [ProperRow, mask_eq_iff, hallow, hdeny, ← mask_eq_iff] at h
  exact h

def ProperRows (t : Tables) : Prop := ∀ ow ∈ t.overwrites.rows, ProperRow ow

instance (ow : DbOverwrite) : Decidable (ProperRow ow) := inferInstanceAs (Decidable (_ ∧ _))

instance (t : Tables) : Decidable (ProperRows t) :=
  inferInstanceAs (Decidable (∀ ow ∈ t.overwrites.rows, ProperRow ow))

section Consequences

variable {ow : DbOverwrite} {perms : String → Permissions}

theorem ProperRow.of {ow : DbOverwrite} (h : ProperRow ow) (id : String) : ProperRow (.of id ow) :=
  ⟨congrArg (DbOverwrite.of id) h.1, h.2⟩

theorem ProperRows.of_channel (h : ProperRows t)
    (hother : ∀ k, k ≠ id → t'.overwritesOf k = t.overwritesOf k)
    (hown : ∀ ow ∈ t'.overwritesOf id, ProperRow ow) : ProperRows t' := by
  intro ow how
  by_cases hid : ow.channelId = id
  · exact hown ow (mem_filter.2 ⟨how, decide_eq_true hid⟩)
  · have hmem : ow ∈ t'.overwritesOf ow.channelId := mem_filter.2 ⟨how, decide_eq_true rfl⟩
    rw [hother _ hid] at hmem
    exact h ow (mem_filter.1 hmem).1

theorem Wrote.properRows {rows : List DbOverwrite} {synced : Bool} (h : Wrote id rows synced t t')
    (ht : ProperRows t) (hrows : ∀ ow ∈ rows, ProperRow ow) : ProperRows t' := by
  refine ht.of_channel h.other fun ow how => ?_
  rw [h.own] at how
  obtain ⟨r, hr, rfl⟩ := mem_map.1 how
  exact (hrows r hr).of id

theorem Sets.properRows (h : Sets ow t t') (ht : ProperRows t)
    (hmask : CommunityDb.maskOverwrite ow = ow) : ProperRows t' := by
  refine ht.of_channel h.edits.other fun r hr => ?_
  obtain ⟨hr, hid⟩ := mem_filter.1 hr
  have hfind : t'.overwrites.find? (ow.channelId, r.targetType, r.targetId) = some r :=
    Table.find?_eq_some.2 ⟨hr, congrArg (·, r.targetType, r.targetId) (of_decide_eq_true hid)⟩
  rw [h.own] at hfind
  split at hfind
  · split at hfind
    · cases hfind
    · cases hfind
      exact ⟨hmask, ‹_›⟩
  · obtain ⟨r', hr', rfl⟩ := Option.map_eq_some_iff.1 hfind
    exact (ht r' (Table.find?_eq_some.1 hr').1).of ow.channelId

theorem Sets.unsynced (h : Sets ow t t') : t'.Unsynced ow.channelId := by
  intro c hc hid
  rw [h.flags] at hc
  obtain ⟨b, hb, rfl⟩ := mem_map.1 hc
  rw [(flags_flag _ _).id] at hid
  rw [flag, if_pos hid]

theorem Sets.bitsIn (h : Sets ow t t') (targetType : Int) (targetId : String) :
    t'.bitsIn ow.channelId targetType targetId =
      if ow.isFor targetType targetId then (ow.allow, ow.deny)
      else t.bitsIn ow.channelId targetType targetId := by
  rw [Tables.bitsIn, Tables.bitsIn, source_of_unsynced h.unsynced, currentBits_overwritesOf,
    currentBits_overwritesOf, h.own]
  split
  · split
    · rename_i hzero
      rw [hzero.1, hzero.2]
      rfl
    · rfl
  · rw [Option.map_map]
    rfl

theorem Sets.permitted (h : Sets ow t t')
    (hheld : Perms.bits (changedBits (t.bitsIn ow.channelId ow.targetType ow.targetId)
      (ow.allow, ow.deny)) ⊆ Perms.bits (perms ow.channelId)) :
    Permitted perms [ow.channelId] t t' := by
  refine ⟨fun id hid targetType targetId => ?_, fun k hk => h.edits.other k (mt mem_singleton.2 hk),
    _, reflags_flag _ _, h.flags⟩
  obtain rfl := mem_singleton.1 hid
  rw [h.bitsIn]
  split
  · rename_i hfor
    simp only [DbOverwrite.isFor, Bool.and_eq_true, decide_eq_true_eq] at hfor
    rwa [← hfor.1, ← hfor.2]
  · rw [changedBits_self, Perms.bits_zero]
    exact Set.empty_subset _

theorem Wrote.permitted (h : Wrote id [] true t t') (hu : t.Unsynced id) (hf : Follows t'.ordered id k)
    (hne : k ≠ id) (hheld : Perms.bits (differingBits (t.overwritesOf id) (t.overwritesOf k)) ⊆
      Perms.bits (perms id)) : Permitted perms [id] t t' := by
  refine ⟨fun j hj targetType targetId => ?_, fun k hk => h.other k (mt mem_singleton.2 hk),
    _, reflags_flag _ _, h.flags⟩
  obtain rfl := mem_singleton.1 hj
  rw [Tables.bitsIn, Tables.bitsIn, source_of_unsynced hu, source_of_follows hf, h.other k hne]
  exact (changedBits_subset (t.onePerTarget j) (t.onePerTarget k) targetType targetId).trans hheld

theorem mask_currentBits (hp : ProperRows t) (id : String) (ow : DbOverwrite) :
    let cur := t.bitsIn id ow.targetType ow.targetId
    CommunityDb.maskOverwrite { ow with allow := cur.1, deny := cur.2 } =
      { ow with allow := cur.1, deny := cur.2 } := by
  rw [Tables.bitsIn, currentBits_overwritesOf]
  cases hfind : t.overwrites.find? (t.layout.source id, ow.targetType, ow.targetId) with
  | none => simp [CommunityDb.maskOverwrite]
  | some r =>
    have hbits := mask_eq_iff.1 (hp r (Table.find?_eq_some.1 hfind).1).1
    exact mask_eq_iff.2 hbits

theorem Sets.revert {cur : Permissions × Permissions} (h : Sets ow t t') (hu : t.Unsynced ow.channelId)
    (hp : ProperRows t) (hcur : t.bitsIn ow.channelId ow.targetType ow.targetId = cur)
    (h' : Sets { ow with allow := cur.1, deny := cur.2 } t' u) : SameOverwrites t u := by
  have hsource := source_of_unsynced hu
  have hflags' : u.channels.rows = t'.channels.rows.map (flag ow.channelId false) := h'.flags
  refine .of_channel ow.channelId ?_ (fun targetType targetId => ?_) fun k hk => ?_
  · rw [hflags', h.flags, map_map]
    refine Eq.trans ?_ (map_flag_of_forall hu)
    exact map_congr_left fun c _ => flag_flag _ false false c
  · have hown := h'.own targetType targetId
    have hsource' : t'.layout.source ow.channelId = ow.channelId := source_of_unsynced h.unsynced
    have hfor : ({ ow with allow := cur.1, deny := cur.2 } : DbOverwrite).isFor targetType targetId =
        ow.isFor targetType targetId := rfl
    dsimp only at hown
    rw [hsource', h.own, hsource, hfor] at hown
    rw [hown]
    split
    · rename_i hfor
      simp only [DbOverwrite.isFor, Bool.and_eq_true, decide_eq_true_eq] at hfor
      rw [← hfor.1, ← hfor.2]
      rw [Tables.bitsIn, hsource, currentBits_overwritesOf] at hcur
      cases hfind : t.overwrites.find? (ow.channelId, ow.targetType, ow.targetId) with
      | none =>
        rw [hfind] at hcur
        subst hcur
        rfl
      | some r =>
        rw [hfind] at hcur
        subst hcur
        obtain ⟨hr, hkey⟩ := Table.find?_eq_some.1 hfind
        refine (if_neg (hp r hr).2).trans (congrArg some ?_)
        obtain ⟨hid, htype, htarget⟩ : r.channelId = ow.channelId ∧
          r.targetType = ow.targetType ∧ r.targetId = ow.targetId := by simpa using hkey
        rw [← hid, ← htype, ← htarget]
        rfl
    · rw [find?_of_channel (ow.channelId, targetType, targetId)]
      exact find?_of_channel (ow.channelId, targetType, targetId)
  · have hk' : k ≠ ({ ow with allow := cur.1, deny := cur.2 } : DbOverwrite).channelId := hk
    rw [h'.edits.other k hk', h.edits.other k hk]

theorem Sets.resync (ht : SyncInv t) (hf : Follows t.ordered ow.channelId k) (h : Sets ow t t')
    (hw : Wrote ow.channelId [] true t' u) : SameOverwrites t u := by
  have hsynced : ∀ c ∈ t.channels.rows, c.id = ow.channelId → c.permSynced = true := by
    intro c hc hid
    obtain ⟨b, hb, hbid, hs⟩ := hf.synced
    rwa [Table.eq_of_key hc (mem_ordered.1 hb) (hid.trans hbid.symm)]
  refine .of_channel ow.channelId ?_ (fun targetType targetId => ?_) fun k hk => ?_
  · have hflags : u.channels.rows = t'.channels.rows.map (flag ow.channelId true) := hw.flags
    rw [hflags, h.flags, map_map]
    refine Eq.trans ?_ (map_flag_of_forall hsynced)
    exact map_congr_left fun c _ => flag_flag _ false true c
  · obtain ⟨c, hc, hid, hs⟩ := hf.synced
    have hown := ht.noRows c (mem_ordered.1 hc) hs
    rw [hid] at hown
    rw [← find?_overwritesOf, ← find?_overwritesOf, hown, hw.own]
    rfl
  · rw [hw.other k hk, h.edits.other k hk]

theorem Wrote.restore (hflags : t'.channels.rows.map (flag id false) = t.channels.rows)
    (hother : ∀ k, k ≠ id → t'.overwritesOf k = t.overwritesOf k)
    (h : Wrote id (t.overwritesOf id) false t' u) : Permitted perms [] t u := by
  refine ⟨forall_mem_nil _, fun k _ => ?_, _, .same [], ?_⟩
  · by_cases hk : k = id
    · rw [hk, h.own]
      refine (map_congr_left fun ow how => ?_).trans (map_id _)
      have hid := of_decide_eq_true (mem_filter.1 how).2
      rw [DbOverwrite.of, ← hid, id_eq]
    · rw [h.other k hk, hother k hk]
  · have hrows : u.channels.rows = t'.channels.rows.map (flag id false) := h.flags
    rw [hrows, hflags, map_id']

theorem Wrote.unflag (hu : t.Unsynced id) (h : Wrote id [] true t t') :
    t'.channels.rows.map (flag id false) = t.channels.rows := by
  have hflags : t'.channels.rows = t.channels.rows.map (flag id true) := h.flags
  rw [hflags, map_map]
  refine Eq.trans ?_ (map_flag_of_forall hu)
  exact map_congr_left fun c _ => flag_flag _ true false c

end Consequences

/-! ## Being in order -/

/-- Rows and flags are in order. -/
structure Settled (t : Tables) : Prop where
  sync : SyncInv t
  proper : ProperRows t

theorem parentCategory_of_follows (h : Follows t.ordered id k) :
    t.layout.parentCategory id = k := by
  rw [ChannelLayout.parentCategory, layout, find?_parentOf_ofRows t.nodup_ordered, h.under]
  rfl

/-- The channel is under a category that syncs. -/
structure Syncable (t : Tables) (id k : String) : Prop where
  channel : id ∈ t.channels.keys
  under : parentIn t.ordered "" id = some k
  named : k ≠ ""
  syncs : ∃ c ∈ t.channels.rows, c.id = k ∧ c.type = .category ∧ c.categorySync = true

theorem syncable_of_found (hid : id ∈ t.channels.keys) (hne : t.layout.parentCategory id ≠ "")
    (hsync : ((t.channels.find? (t.layout.parentCategory id)).map DbChannel.categorySync).getD false =
      true) : Syncable t id (t.layout.parentCategory id) := by
  have hunder := CommunityDb.parentIn_of_parentCategory hne
  refine ⟨hid, hunder, hne, ?_⟩
  cases hk : t.channels.find? (t.layout.parentCategory id) with
  | none =>
    rw [hk] at hsync
    cases hsync
  | some c =>
    obtain ⟨hc, hcid⟩ := Table.find?_eq_some.1 hk
    rw [hk] at hsync
    obtain ⟨b, hb, hbid, htype⟩ := (category_of_parentIn hunder hne).resolve_left hne
    rw [Table.eq_of_key (mem_ordered.1 hb) hc (hbid.trans hcid.symm)] at htype
    exact ⟨c, hc, hcid, htype, hsync⟩

theorem unsynced_of_row {c : DbChannel} (hc : c ∈ t.channels.rows) (h : ¬c.permSynced = true) :
    t.Unsynced c.id := fun b hb hid => by
  rw [Table.eq_of_key hb hc hid]
  exact Bool.eq_false_iff.2 h

theorem Syncable.ne (h : Syncable t id k) : k ≠ id := ne_of_parentIn t.nodup_ordered h.under h.named

theorem Syncable.parentCategory (h : Syncable t id k) : t.layout.parentCategory id = k := by
  rw [ChannelLayout.parentCategory, layout, find?_parentOf_ofRows t.nodup_ordered, h.under]
  rfl

theorem Syncable.source (h : Syncable t id k) (ht : SyncInv t) : t.layout.source k = k := by
  obtain ⟨c, hc, rfl, htype, -⟩ := h.syncs
  exact source_of_unsynced (ht.unsynced_of_category hc htype)

theorem Syncable.categorySyncOf (h : Syncable t id k) :
    t.layout.categorySyncOf.find? k = some true := by
  obtain ⟨c, hc, rfl, htype, hsync⟩ := h.syncs
  rw [layout, find?_categorySyncOf t.nodup_ordered]
  cases hf : t.ordered.find? fun b => b.id = c.id && b.type = .category with
  | none => simpa [htype] using find?_eq_none.1 hf c (mem_ordered.2 hc)
  | some b =>
    have hb := find?_some hf
    simp only [Bool.and_eq_true, decide_eq_true_eq] at hb
    rw [row_unique t.nodup_ordered (mem_of_find?_eq_some hf) (mem_ordered.2 hc) hb.1,
      Option.map_some, hsync]
    rfl

theorem Syncable.of_follows (h : Follows t.ordered id k) : Syncable t id k := by
  obtain ⟨c, hc, hid, -⟩ := h.synced
  obtain ⟨b, hb, hb'⟩ := h.syncs
  exact ⟨hid ▸ mem_map_of_mem (mem_ordered.1 hc), h.under, h.named, b, mem_ordered.1 hb, hb'⟩

theorem Syncable.of_flags {ids : List String} {f : DbChannel → DbChannel} (h : Syncable t id k)
    (hf : Reflags ids f) (hrows : t'.channels.rows = t.channels.rows.map f) : Syncable t' id k := by
  obtain ⟨c, hc, hid, htype, hsync⟩ := h.syncs
  refine ⟨hf.flags.keys hrows ▸ h.channel, ?_, h.named, f c, ?_, ?_, ?_, ?_⟩
  · rw [ordered_of_flags hf.flags hrows,
      parentIn_congr (outline_map (fun c => ⟨hf.flags.id c, hf.flags.type c⟩) _)]
    exact h.under
  · exact hrows ▸ mem_map_of_mem hc
  · exact (hf.flags.id c).trans hid
  · exact (hf.flags.type c).trans htype
  · exact (hf.categorySync c).trans hsync

theorem Wrote.follows (h : Wrote id [] true t t') (hs : Syncable t id k) : Follows t'.ordered id k := by
  have hrows : t'.channels.rows = t.channels.rows.map (flag id true) := h.flags
  have hs' := hs.of_flags (reflags_flag id true) hrows
  obtain ⟨b, hb, hid⟩ := mem_map.1 hs.channel
  obtain ⟨c, hc, hc'⟩ := hs'.syncs
  refine ⟨hs'.under, hs'.named, ⟨flag id true b, ?_, (flags_flag id true).id b ▸ hid, ?_⟩,
    c, mem_ordered.2 hc, hc'⟩
  · exact mem_ordered.2 (hrows ▸ mem_map_of_mem hb)
  · rw [flag, if_pos hid]

theorem Settled.synced (ht : Settled t) (hs : Syncable t id k) (h : Wrote id [] true t t') : Settled t' :=
  ⟨ht.sync.synced hs.under hs.named hs.syncs h, h.properRows ht.proper (forall_mem_nil _)⟩

theorem Settled.restored {rows : List DbOverwrite} (ht : Settled t) (hid : id ∈ t.channels.keys)
    (hrows : ∀ ow ∈ rows, ProperRow ow) (h : Wrote id rows false t t') : Settled t' := by
  obtain ⟨he, hu⟩ := h.edits
  exact ⟨ht.sync.of_edits hid he hu, h.properRows ht.proper hrows⟩

theorem Settled.set {ow : DbOverwrite} (ht : Settled t) (hid : ow.channelId ∈ t.channels.keys)
    (hmask : CommunityDb.maskOverwrite ow = ow) (h : Sets ow t t') : Settled t' :=
  ⟨ht.sync.of_edits hid h.edits h.unsynced, h.properRows ht.proper hmask⟩

end Tables
end Decibell
