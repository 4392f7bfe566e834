import Decibell.Community.Order

/-!
# What category sync keeps

A synced channel follows a category that syncs and has no overwrite rows of its own
(`SyncInv`). The channel writers keep this, and those that move channels keep the rules
that apply to every channel that survives (`rules`), as each first gives a channel that
will no longer follow its category a copy of the category's rows.
-/

namespace Decibell

open Lib Lib.Conn Tables ChannelLayout List

/-- What an overwrite row says, whichever channel it is of. -/
def DbOverwrite.rule (ow : DbOverwrite) : Int × String × Permissions × Permissions :=
  (ow.targetType, ow.targetId, ow.allow, ow.deny)

/-- The row as another channel's. -/
def DbOverwrite.of (channelId : String) (ow : DbOverwrite) : DbOverwrite := { ow with channelId }

theorem DbOverwrite.rules_of (channelId : String) (rows : List DbOverwrite) :
    (rows.map (DbOverwrite.of channelId)).map rule = rows.map rule := by
  rw [map_map]
  rfl

namespace Tables

variable {t t' : Tables} {id : String}

/-- The rules that apply to a channel. -/
def rules (t : Tables) (id : String) : List (Int × String × Permissions × Permissions) :=
  (t.overwritesOf (t.layout.source id)).map DbOverwrite.rule

def Unsynced (t : Tables) (id : String) : Prop :=
  ∀ c ∈ t.channels.rows, c.id = id → c.permSynced = false

/-- A synced channel follows a syncing category and has no rows; every row is of some channel. -/
structure SyncInv (t : Tables) : Prop where
  follows : ∀ c ∈ t.channels.rows, c.permSynced = true → ∃ parent, Follows t.ordered c.id parent
  noRows : ∀ c ∈ t.channels.rows, c.permSynced = true → t.overwritesOf c.id = []
  owned : ∀ ow ∈ t.overwrites.rows, ow.channelId ∈ t.channels.keys
  named : "" ∉ t.channels.keys

theorem source_of_follows {parent : String} (h : Follows t.ordered id parent) :
    t.layout.source id = parent :=
  h.source t.nodup_ordered

theorem source_of_unsynced (h : t.Unsynced id) : t.layout.source id = id := by
  by_contra hne
  obtain ⟨c, hc, hid, hs⟩ := (follows_of_source t.nodup_ordered rfl hne).synced
  rw [h c (mem_ordered.1 hc) hid] at hs
  cases hs

theorem rules_of_follows {parent : String} (h : Follows t.ordered id parent) :
    t.rules id = (t.overwritesOf parent).map DbOverwrite.rule := by
  rw [rules, source_of_follows h]

theorem rules_of_unsynced (h : t.Unsynced id) :
    t.rules id = (t.overwritesOf id).map DbOverwrite.rule := by
  rw [rules, source_of_unsynced h]

theorem SyncInv.follows_or_unsynced (h : SyncInv t) (id : String) :
    (∃ parent, Follows t.ordered id parent) ∨ t.Unsynced id := by
  by_cases hs : ∃ c ∈ t.channels.rows, c.id = id ∧ c.permSynced = true
  · obtain ⟨c, hc, rfl, hs⟩ := hs
    exact .inl (h.follows c hc hs)
  · refine .inr fun c hc hid => ?_
    by_contra hne
    exact hs ⟨c, hc, hid, by simpa using hne⟩

theorem follower_ne_parent {id' parent parent' : String} (h : Follows t.ordered id parent)
    (h' : Follows t.ordered id' parent') : parent' ≠ id :=
  (h.ne_parent t.nodup_ordered h').symm

theorem overwritesOf_unknown (h : SyncInv t) (hid : id ∉ t.channels.keys) :
    t.overwritesOf id = [] := by
  refine filter_eq_nil_iff.2 fun ow how hc => hid ?_
  have := h.owned ow how
  rwa [of_decide_eq_true hc] at this

/-! ## Copies -/

/-- The channel has these rows as its own; nothing else changed. -/
structure Wrote (id : String) (rows : List DbOverwrite) (synced : Bool) (t t' : Tables) : Prop where
  flags : t'.channels.rows =
    t.channels.rows.map fun c => if c.id = id then { c with permSynced := synced } else c
  own : t'.overwritesOf id = rows.map (.of id)
  other : ∀ k, k ≠ id → t'.overwritesOf k = t.overwritesOf k
  owned : ∀ ow ∈ t'.overwrites.rows, ow ∈ t.overwrites.rows ∨ ow.channelId = id

theorem applyAll_append (as bs : List Stmt) (t : Tables) :
    applyAll (as ++ bs) t = (applyAll as t).bind (applyAll bs) :=
  foldlM_append

theorem rows_of_inserts {rows : List DbOverwrite} {t t' : Tables}
    (h : applyAll (rows.map insertOverwrite) t = some t') :
    t'.overwrites.rows = t.overwrites.rows ++ rows ∧ t'.channels = t.channels := by
  induction rows generalizing t with
  | nil =>
    cases h
    simp
  | cons ow rows ih =>
    rw [map_cons, applyAll, foldlM_cons] at h
    obtain ⟨u, hu, h⟩ := Option.bind_eq_some_iff.1 h
    obtain ⟨overwrites, hi, rfl⟩ := Option.map_eq_some_iff.1 hu
    obtain ⟨hr, hc⟩ := ih h
    exact ⟨by rw [hr, Table.rows_of_insert hi, append_assoc, singleton_append], hc⟩

theorem applyAll_inserts {rows : List DbOverwrite} {t : Tables}
    (hn : (rows.map DbOverwrite.key).Nodup) (hfree : ∀ ow ∈ rows, ow.key ∉ t.overwrites.keys) :
    ∃ t', applyAll (rows.map insertOverwrite) t = some t' := by
  induction rows generalizing t with
  | nil => exact ⟨t, rfl⟩
  | cons ow rows ih =>
    rw [map_cons, nodup_cons] at hn
    have hi := Table.insert_eq_some (hfree ow (.head rows))
    obtain ⟨t', ht'⟩ := ih (t := { t with overwrites := t.overwrites.append ow _ }) hn.2 fun r hr hk => by
      simp only [Table.keys, Table.append, map_append, mem_append, map_cons,
        map_nil, mem_singleton] at hk
      rcases hk with hk | hk
      · exact hfree r (.tail ow hr) hk
      · exact hn.1 (hk ▸ mem_map_of_mem hr)
    refine ⟨t', ?_⟩
    rw [map_cons, applyAll, foldlM_cons, insertOverwrite, hi]
    exact ht'

theorem writeOwn_eq (id : String) (rows : List DbOverwrite) (synced : Bool) :
    writeOwnOverwrites id rows synced = deleteOverwrites (·.channelId = id) ::
      (rows.map (.of id)).map insertOverwrite ++ [setPermSynced id synced] := by
  rw [map_map]
  rfl

theorem wrote_of_applyAll {rows : List DbOverwrite} {synced : Bool}
    (h : applyAll (writeOwnOverwrites id rows synced) t = some t') : Wrote id rows synced t t' := by
  rw [writeOwn_eq, applyAll_append] at h
  obtain ⟨u, hu, h⟩ := Option.bind_eq_some_iff.1 h
  rw [applyAll, foldlM_cons] at hu
  obtain ⟨hr, hc⟩ := rows_of_inserts hu
  cases h
  have hin : ∀ ow ∈ rows.map (DbOverwrite.of id), ow.channelId = id := fun ow how => by
    obtain ⟨_, -, rfl⟩ := mem_map.1 how
    rfl
  refine ⟨?_, ?_, fun k hk => ?_, fun ow how => ?_⟩
  · simp only [Table.rows_updateWhere, hc, decide_eq_true_eq]
  · simp only [overwritesOf, hr, Table.rows_deleteWhere, filter_append, filter_filter]
    rw [filter_eq_nil_iff.2 (by simp), nil_append, filter_eq_self]
    exact fun ow how => decide_eq_true (hin ow how)
  · simp only [overwritesOf, hr, Table.rows_deleteWhere, filter_append, filter_filter]
    have hnil : (rows.map (DbOverwrite.of id)).filter (·.channelId = k) = [] :=
      filter_eq_nil_iff.2 fun ow how => by simp [hin ow how, Ne.symm hk]
    rw [hnil, append_nil]
    refine filter_congr fun ow _ => ?_
    by_cases how : ow.channelId = k <;> simp [how, hk]
  · rw [hr] at how
    refine (mem_append.1 how).imp (fun h => (mem_filter.1 h).1) (hin ow)

theorem applyAll_writeOwn (source : String) (t₀ t : Tables) (id : String) (synced : Bool) :
    ∃ t', applyAll (writeOwnOverwrites id (t₀.overwritesOf source) synced) t = some t' := by
  let u : Tables := { t with overwrites := t.overwrites.deleteWhere (·.channelId = id) }
  have hn : (((t₀.overwritesOf source).map (.of id)).map DbOverwrite.key).Nodup := by
    -- rows of one channel differ in their targets
    rw [map_map]
    have hn := (List.Nodup.of_map _ t₀.overwrites.nodup).filter (·.channelId = source)
    refine List.Nodup.map_on (fun a ha b hb hab => ?_) hn
    obtain ⟨ha, hac⟩ := mem_filter.1 ha
    obtain ⟨hb, hbc⟩ := mem_filter.1 hb
    refine Table.eq_of_key ha hb (Prod.ext ?_ (Prod.mk.inj hab).2)
    exact (of_decide_eq_true hac).trans (of_decide_eq_true hbc).symm
  have hfree : ∀ ow ∈ (t₀.overwritesOf source).map (DbOverwrite.of id), ow.key ∉ u.overwrites.keys := by
    intro ow how hk
    obtain ⟨r, -, rfl⟩ := mem_map.1 how
    obtain ⟨x, hx, hxk⟩ := mem_map.1 hk
    have : x.channelId = id := congrArg Prod.fst hxk
    simp [u, this] at hx
  obtain ⟨t', ht'⟩ := applyAll_inserts hn hfree
  rw [writeOwn_eq, applyAll_append]
  exact ⟨_, Option.bind_eq_some_iff.2 ⟨t', ht', rfl⟩⟩

/-- Each of `channels` has its category's rows as its own, unsynced; nothing else changed. -/
structure Kept (rows : String → List DbOverwrite) (channels : List (String × String))
    (t t' : Tables) : Prop where
  flags : t'.channels.rows = t.channels.rows.map fun c =>
    if c.id ∈ channels.map Prod.fst then { c with permSynced := false } else c
  own : ∀ e ∈ channels, t'.overwritesOf e.1 = (rows e.2).map (.of e.1)
  other : ∀ k ∉ channels.map Prod.fst, t'.overwritesOf k = t.overwritesOf k
  owned : ∀ ow ∈ t'.overwrites.rows,
    ow ∈ t.overwrites.rows ∨ ow.channelId ∈ channels.map Prod.fst

variable {rows : String → List DbOverwrite} {channels : List (String × String)}

theorem Kept.nil : Kept rows [] t t := by
  refine ⟨?_, nofun, fun _ _ => rfl, fun _ => .inl⟩
  simp

theorem Kept.cons {u : Tables} {e : String × String} (hn : e.1 ∉ channels.map Prod.fst)
    (hw : Wrote e.1 (rows e.2) false t u) (hk : Kept rows channels u t') :
    Kept rows (e :: channels) t t' where
  flags := by
    rw [hk.flags, hw.flags, map_map]
    refine map_congr_left fun c _ => ?_
    by_cases hc : c.id = e.1
    · simp [hc]
    · rw [Function.comp_apply, if_neg hc, map_cons]
      simp only [mem_cons, hc, false_or]
  own := by
    intro e' he
    rcases mem_cons.1 he with rfl | he
    · rw [hk.other _ hn, hw.own]
    · exact hk.own e' he
  other := by
    intro k hk'
    rw [map_cons, mem_cons, not_or] at hk'
    rw [hk.other k hk'.2, hw.other k hk'.1]
  owned := by
    intro ow how
    rw [map_cons, mem_cons]
    rcases hk.owned ow how with h | h
    · exact (hw.owned ow h).imp id .inl
    · exact .inr (.inr h)

theorem Kept.ordered (h : Kept rows channels t t') : t'.ordered = t.ordered.map fun c =>
    if c.id ∈ channels.map Prod.fst then { c with permSynced := false } else c :=
  ordered_of_map (fun c => by split <;> exact ⟨rfl, rfl⟩) h.flags

theorem Kept.keys (h : Kept rows channels t t') : t'.channels.keys = t.channels.keys := by
  rw [Table.keys, h.flags, map_map]
  refine map_congr_left fun c _ => ?_
  rw [Function.comp_apply]
  split <;> rfl

theorem Kept.follows {parent : String} (h : Kept rows channels t t')
    (hid : id ∉ channels.map Prod.fst) (hf : Follows t.ordered id parent) :
    Follows t'.ordered id parent := by
  rw [h.ordered]
  refine hf.mono ?_ (fun c hc hcid hs => ?_) fun k hk hkid ht hs => ?_
  · rw [parentIn_congr (outline_map (fun c => by split <;> exact ⟨rfl, rfl⟩) _)]
    exact hf.under
  · exact ⟨_, mem_map_of_mem hc, by split <;> exact hcid, by
      rw [if_neg (hcid ▸ hid)]
      exact hs⟩
  · exact ⟨_, mem_map_of_mem hk, by split <;> exact hkid, by split <;> exact ht,
      by split <;> exact hs⟩

theorem Kept.unsynced (h : Kept rows channels t t')
    (hid : id ∈ channels.map Prod.fst ∨ t.Unsynced id) : t'.Unsynced id := by
  intro c hc hcid
  rw [h.flags] at hc
  obtain ⟨b, hb, rfl⟩ := mem_map.1 hc
  split at hcid
  · rw [if_pos ‹_›]
  · rw [if_neg ‹_›]
    exact (hid.resolve_left fun hm => ‹b.id ∉ _› (hcid.symm ▸ hm)) b hb hcid

/-! ## New orders -/

/-- Only positions changed. -/
structure Reordered (t t' : Tables) : Prop where
  overwrites : t'.overwrites = t.overwrites
  rows : ∃ f : DbChannel → Int, t'.channels.rows = t.channels.rows.map fun c => { c with position := f c }

/-- Only positions changed, and every channel is under its category. -/
structure SameLayout (t t' : Tables) : Prop extends Reordered t t' where
  under : ∀ id, parentIn t'.ordered "" id = parentIn t.ordered "" id

theorem reordered_repositioned (t : Tables) (ids : List String) (position : Nat → Int) :
    Reordered t (t.repositioned ids position) := by
  refine ⟨rfl, fun c => if c.id ∈ ids then position (ids.idxOf c.id) else c.position, ?_⟩
  simp only [repositioned, Table.rows_updateWhere, decide_eq_true_eq]
  refine map_congr_left fun c _ => ?_
  split <;> rfl

theorem Reordered.trans {t'' : Tables} (h : Reordered t t') (h' : Reordered t' t'') :
    Reordered t t'' := by
  obtain ⟨f, hf⟩ := h.rows
  obtain ⟨g, hg⟩ := h'.rows
  refine ⟨h'.overwrites.trans h.overwrites, fun c => g { c with position := f c }, ?_⟩
  rw [hg, hf, map_map]
  rfl

theorem Reordered.keys (h : Reordered t t') : t'.channels.keys = t.channels.keys := by
  obtain ⟨f, hf⟩ := h.rows
  rw [Table.keys, hf, map_map]
  rfl

theorem Reordered.unsynced (h : Reordered t t') (hid : t.Unsynced id) : t'.Unsynced id := by
  obtain ⟨f, hf⟩ := h.rows
  intro c hc hcid
  rw [hf] at hc
  obtain ⟨b, hb, rfl⟩ := mem_map.1 hc
  exact hid b hb hcid

theorem Reordered.follows {parent : String} (h : Reordered t t') (hf : Follows t.ordered id parent)
    (hu : parentIn t'.ordered "" id = some parent) : Follows t'.ordered id parent := by
  obtain ⟨f, hr⟩ := h.rows
  have hmem : ∀ c ∈ t.ordered, { c with position := f c } ∈ t'.ordered := fun c hc => by
    rw [mem_ordered, hr]
    exact mem_map_of_mem (mem_ordered.1 hc)
  exact hf.mono hu (fun c hc hcid hs => ⟨_, hmem c hc, hcid, hs⟩)
    fun k hk hkid ht hs => ⟨_, hmem k hk, hkid, ht, hs⟩

/-! ## What a writer carries over -/

/-- Channels in `D` are carried over; those in `S` stop following, with copies. -/
structure Carried (S D : String → Prop) (t t' : Tables) : Prop where
  left : ∀ id, S id → ∃ parent, Follows t.ordered id parent ∧
    (t'.overwritesOf id).map DbOverwrite.rule = (t.overwritesOf parent).map DbOverwrite.rule
  stay : ∀ id parent, D id → ¬S id → Follows t.ordered id parent → Follows t'.ordered id parent
  unsynced : ∀ id, D id → S id ∨ t.Unsynced id → t'.Unsynced id
  other : ∀ id, D id → ¬S id → t'.overwritesOf id = t.overwritesOf id
  fresh : ∀ c ∈ t'.channels.rows, ¬D c.id → c.permSynced = true →
    (∃ parent, D parent ∧ Follows t'.ordered c.id parent) ∧ t'.overwritesOf c.id = []
  parents : ∀ id parent, D id → Follows t'.ordered id parent → D parent
  owned : ∀ ow ∈ t'.overwrites.rows, ow.channelId ∈ t'.channels.keys
  named : "" ∉ t'.channels.keys

theorem not_unsynced_of_follows {parent : String} (h : Follows t.ordered id parent) :
    ¬t.Unsynced id := fun hu => by
  obtain ⟨c, hc, hid, hs⟩ := h.synced
  rw [hu c (mem_ordered.1 hc) hid] at hs
  cases hs

/-- What is carried over keeps its rules; no synced channel is on its own. -/
theorem SyncInv.carried {S D : String → Prop} (ht : SyncInv t) (h : Carried S D t t') :
    SyncInv t' ∧ ∀ id, D id → t'.rules id = t.rules id := by
  have hsynced : ∀ c ∈ t'.channels.rows, c.permSynced = true → D c.id →
      ¬S c.id ∧ ∃ parent, Follows t.ordered c.id parent := by
    intro c hc hs hd
    have hns : ¬(S c.id ∨ t.Unsynced c.id) := fun hu => by
      rw [h.unsynced c.id hd hu c hc rfl] at hs
      cases hs
    rw [not_or] at hns
    exact ⟨hns.1, (ht.follows_or_unsynced c.id).resolve_right hns.2⟩
  refine ⟨⟨fun c hc hs => ?_, fun c hc hs => ?_, h.owned, h.named⟩, fun id hd => ?_⟩
  · by_cases hd : D c.id
    · obtain ⟨hns, parent, hf⟩ := hsynced c hc hs hd
      exact ⟨parent, h.stay _ _ hd hns hf⟩
    · exact (h.fresh c hc hd hs).1.imp fun _ => And.right
  · by_cases hd : D c.id
    · obtain ⟨hns, parent, hf⟩ := hsynced c hc hs hd
      obtain ⟨b, hb, hbid, hbs⟩ := hf.synced
      rw [h.other _ hd hns, ← hbid]
      exact ht.noRows b (mem_ordered.1 hb) hbs
    · exact (h.fresh c hc hd hs).2
  · rcases ht.follows_or_unsynced id with ⟨parent, hf⟩ | hu
    · by_cases hs : S id
      · obtain ⟨parent', hf', hrules⟩ := h.left id hs
        rw [rules_of_unsynced (h.unsynced id hd (.inl hs)), hrules, rules_of_follows hf']
      · -- the category itself follows nothing, so it was given no copy
        have hf' := h.stay id parent hd hs hf
        have hp : ¬S parent := fun hp => by
          obtain ⟨_, hf', -⟩ := h.left parent hp
          exact follower_ne_parent hf' hf rfl
        rw [rules_of_follows hf', h.other parent (h.parents id parent hd hf') hp, rules_of_follows hf]
    · have hs : ¬S id := fun hs => by
        obtain ⟨_, hf, -⟩ := h.left id hs
        exact not_unsynced_of_follows hf hu
      rw [rules_of_unsynced (h.unsynced id hd (.inr hu)), h.other id hd hs, rules_of_unsynced hu]

theorem overwritesOf_eq (h : t'.overwrites = t.overwrites) (k : String) :
    t'.overwritesOf k = t.overwritesOf k := by
  rw [overwritesOf, h, overwritesOf]

theorem sameLayout_normalized (t : Tables) :
    SameLayout t (t.repositioned ((normalizeRows t.ordered [] []).map DbChannel.id) fun i => i) where
  toReordered := reordered_repositioned t _ _
  under id := by
    have hp : (normalizeRows t.ordered [] []).Perm t.channels.rows :=
      (normalizeRows_perm _ _ _).trans t.perm_ordered
    rw [ordered_repositioned hp fun i j hij => Int.ofNat_lt.2 hij, parentIn_congr (outline_mapIdx _ _),
      parentIn_normalized]

theorem SyncInv.sameLayout (ht : SyncInv t) (h : SameLayout t t') :
    SyncInv t' ∧ ∀ id, t'.rules id = t.rules id := by
  have hc : Carried (fun _ => False) (fun _ => True) t t' := {
    left := nofun
    stay := fun id parent _ _ hf => h.follows hf ((h.under id).trans hf.under)
    unsynced := fun id _ hu => h.unsynced (hu.resolve_left not_false)
    other := fun id _ _ => overwritesOf_eq h.overwrites id
    fresh := fun _ _ h => absurd trivial h
    parents := fun _ _ _ _ => trivial
    owned := by
      rw [h.overwrites, h.keys]
      exact ht.owned
    named := h.keys ▸ ht.named }
  exact (ht.carried hc).imp_right fun h id => h id trivial

theorem keys_of_follows {parent : String} (h : Follows t.ordered id parent) :
    id ∈ t.channels.keys := by
  obtain ⟨c, hc, hid, -⟩ := h.synced
  exact hid ▸ mem_map_of_mem (mem_ordered.1 hc)

theorem SyncInv.reordered {u : Tables} {moved : List (String × String)} (ht : SyncInv t)
    (h : Reordered t u) (hk : Kept u.overwritesOf moved u t')
    (hm : ∀ id parent, (id, parent) ∈ moved ↔
      Follows t.ordered id parent ∧ u.layout.parentCategory id ≠ parent) :
    SyncInv t' ∧ ∀ id, t'.rules id = t.rules id := by
  have hkeys := hk.keys.trans h.keys
  have hleft : ∀ id ∈ moved.map Prod.fst, ∃ parent, (id, parent) ∈ moved := by
    intro id hid
    obtain ⟨⟨_, parent⟩, he, rfl⟩ := mem_map.1 hid
    exact ⟨parent, he⟩
  have hc : Carried (· ∈ moved.map Prod.fst) (fun _ => True) t t' := {
    left := by
      intro id hid
      obtain ⟨parent, he⟩ := hleft id hid
      refine ⟨parent, ((hm _ _).1 he).1, ?_⟩
      rw [hk.own _ he, DbOverwrite.rules_of, overwritesOf_eq h.overwrites]
    stay := by
      intro id parent _ hid hf
      refine hk.follows hid (h.follows hf ?_)
      by_contra hne
      refine hid (mem_map.2 ⟨(id, parent), (hm id parent).2 ⟨hf, fun hp => hne ?_⟩, rfl⟩)
      rw [parentCategory, layout, find?_parentOf_ofRows u.nodup_ordered] at hp
      cases hu : parentIn u.ordered "" id with
      | none => exact absurd (hp.symm.trans (by rw [hu]; rfl)) hf.named
      | some q => exact congrArg some (by simpa [hu] using hp)
    unsynced := fun id _ hid => hk.unsynced (hid.imp_right h.unsynced)
    other := fun id _ hid => (hk.other id hid).trans (overwritesOf_eq h.overwrites id)
    fresh := fun _ _ h => absurd trivial h
    parents := fun _ _ _ _ => trivial
    owned := by
      intro ow how
      rw [hkeys]
      rcases hk.owned ow how with h' | h'
      · exact ht.owned ow (h.overwrites ▸ h')
      · obtain ⟨parent, he⟩ := hleft _ h'
        exact keys_of_follows ((hm _ _).1 he).1
    named := hkeys ▸ ht.named }
  exact (ht.carried hc).imp_right fun h id => h id trivial

/-- A change of flags that keeps the order. -/
structure Flags (f : DbChannel → DbChannel) : Prop where
  id : ∀ c, (f c).id = c.id
  type : ∀ c, (f c).type = c.type
  position : ∀ c, (f c).position = c.position

theorem Flags.follows {f : DbChannel → DbChannel} {parent : String} (hf : Flags f)
    (hrows : t'.channels.rows = t.channels.rows.map f) (h : Follows t.ordered id parent)
    (hs : ∀ c, c.id = id → c.permSynced = true → (f c).permSynced = true)
    (hk : ∀ c, c.id = parent → c.categorySync = true → (f c).categorySync = true) :
    Follows t'.ordered id parent := by
  rw [ordered_of_map (fun c => ⟨hf.id c, hf.position c⟩) hrows]
  refine h.mono ?_ (fun c hc hcid hcs => ?_) fun k hkr hkid hkt hks => ?_
  · rw [parentIn_congr (outline_map (fun c => ⟨hf.id c, hf.type c⟩) _)]
    exact h.under
  · exact ⟨_, mem_map_of_mem hc, (hf.id c).trans hcid, hs c hcid hcs⟩
  · exact ⟨_, mem_map_of_mem hkr, (hf.id k).trans hkid, (hf.type k).trans hkt, hk k hkid hks⟩

theorem Flags.keys {f : DbChannel → DbChannel} (hf : Flags f)
    (hrows : t'.channels.rows = t.channels.rows.map f) : t'.channels.keys = t.channels.keys := by
  rw [Table.keys, hrows, map_map]
  exact map_congr_left fun c _ => hf.id c

theorem SyncInv.categorySync {u : Tables} {k : String} {on : Bool} {followers : List (String × String)}
    (ht : SyncInv t) (hk : Kept (fun _ => t.overwritesOf k) followers t u)
    (hfo : ∀ e ∈ followers, Follows t.ordered e.1 k)
    (hoff : on = false → ∀ id, Follows t.ordered id k → id ∈ followers.map Prod.fst)
    (hu : Tables.setCategorySync k on u = some t') :
    SyncInv t' ∧ ∀ id, t'.rules id = t.rules id := by
  set f : DbChannel → DbChannel := fun c =>
    if c.id = k && c.type = .category then { c with categorySync := on } else c with hfdef
  have hrows : t'.channels.rows = u.channels.rows.map f := by cases hu; rfl
  have hover : t'.overwrites = u.overwrites := by cases hu; rfl
  have hf : Flags f := by constructor <;> intro c <;> simp only [hfdef] <;> split <;> rfl
  have hsynced : ∀ c, (f c).permSynced = c.permSynced := fun c => by
    simp only [hfdef]
    split <;> rfl
  have hmem : ∀ id ∈ followers.map Prod.fst, Follows t.ordered id k := fun id hid => by
    obtain ⟨e, he, rfl⟩ := mem_map.1 hid
    exact hfo e he
  have hc : Carried (· ∈ followers.map Prod.fst) (fun _ => True) t t' := {
    left := by
      intro id hid
      obtain ⟨e, he, rfl⟩ := mem_map.1 hid
      exact ⟨k, hfo e he, by rw [overwritesOf_eq hover, hk.own e he, DbOverwrite.rules_of]⟩
    stay := by
      intro id parent _ hid h
      refine hf.follows hrows (hk.follows hid h) (fun c _ hs => (hsynced c).trans hs) fun c hcid hcs => ?_
      simp only [hfdef]
      split
      · -- the category stays on, or it lost this follower
        rename_i hck
        simp only [Bool.and_eq_true, decide_eq_true_eq] at hck
        obtain rfl : parent = k := hcid.symm.trans hck.1
        by_contra hon
        exact hid (hoff (by simpa using hon) id h)
      · exact hcs
    unsynced := by
      intro id _ hid c hc hcid
      rw [hrows] at hc
      obtain ⟨b, hb, rfl⟩ := mem_map.1 hc
      exact (hsynced b).trans (hk.unsynced hid b hb ((hf.id b).symm.trans hcid))
    other := fun id _ hid => (overwritesOf_eq hover id).trans (hk.other id hid)
    fresh := fun _ _ h => absurd trivial h
    parents := fun _ _ _ _ => trivial
    owned := by
      intro ow how
      rw [hf.keys hrows, hk.keys]
      exact (hk.owned ow (hover ▸ how)).elim (ht.owned ow) fun h => keys_of_follows (hmem _ h)
    named := by
      rw [hf.keys hrows, hk.keys]
      exact ht.named }
  exact (ht.carried hc).imp_right fun h id => h id trivial

theorem SyncInv.deleted {u : Tables} {k : String} {orphans : List (String × String)}
    (ht : SyncInv t) (hk : Kept (fun _ => t.overwritesOf k) orphans t u)
    (ho : ∀ id, id ∈ orphans.map Prod.fst ↔ Follows t.ordered id k)
    (hrows : t'.channels.rows = u.channels.rows.filter fun c => ! decide (c.id = k))
    (hover : t'.overwrites.rows = u.overwrites.rows.filter fun ow => ! decide (ow.channelId = k)) :
    SyncInv t' ∧ ∀ id, id ≠ k → t'.rules id = t.rules id := by
  have hoverOf : ∀ id, id ≠ k → t'.overwritesOf id = u.overwritesOf id := fun id hid => by
    rw [overwritesOf, hover, filter_filter, overwritesOf]
    refine filter_congr fun ow _ => ?_
    by_cases how : ow.channelId = id <;> simp [how, hid]
  have hmem : ∀ c, c ∈ t'.channels.rows ↔ c ∈ u.channels.rows ∧ c.id ≠ k := fun c => by
    rw [hrows, mem_filter]
    simp
  have hkeys : ∀ id, id ∈ t'.channels.keys ↔ id ∈ t.channels.keys ∧ id ≠ k := fun id => by
    rw [← hk.keys]
    simp only [Table.keys, mem_map, hmem]
    constructor
    · rintro ⟨c, ⟨hc, hne⟩, rfl⟩
      exact ⟨⟨c, hc, rfl⟩, hne⟩
    · rintro ⟨⟨c, hc, rfl⟩, hne⟩
      exact ⟨c, ⟨hc, hne⟩, rfl⟩
  have hkk : k ∉ orphans.map Prod.fst := fun h =>
    follower_ne_parent ((ho k).1 h) ((ho k).1 h) rfl
  refine ht.carried (S := (· ∈ orphans.map Prod.fst)) (D := (· ≠ k)) {
    left := by
      intro id hid
      have hne : id ≠ k := fun h => hkk (h ▸ hid)
      obtain ⟨e, he, rfl⟩ := mem_map.1 hid
      exact ⟨k, (ho _).1 hid, by rw [hoverOf _ hne, hk.own e he, DbOverwrite.rules_of]⟩
    stay := by
      intro id parent hd hid h
      have hp : parent ≠ k := fun hp => hid ((ho id).2 (hp ▸ h))
      have hu := hk.follows hid h
      rw [ordered_of_filter hrows]
      refine hu.mono (parentIn_filter (.inl rfl) hd hp hu.under) (fun c hc hcid hs => ?_)
        fun b hb hbid hbt hbs => ?_
      · exact ⟨c, mem_filter.2 ⟨hc, by simpa [hcid] using hd⟩, hcid, hs⟩
      · exact ⟨b, mem_filter.2 ⟨hb, by simpa [hbid] using hp⟩, hbid, hbt, hbs⟩
    unsynced := fun id _ hid c hc hcid => hk.unsynced hid c ((hmem c).1 hc).1 hcid
    other := fun id hd hid => (hoverOf id hd).trans (hk.other id hid)
    fresh := fun c hc hd => absurd ((hmem c).1 hc).2 hd
    parents := fun id parent _ h => by
      obtain ⟨b, hb, hbid, -⟩ := h.syncs
      exact hbid ▸ ((hmem b).1 (mem_ordered.1 hb)).2
    owned := by
      intro ow how
      rw [hover, mem_filter] at how
      refine (hkeys _).2 ⟨?_, by simpa using how.2⟩
      exact (hk.owned ow how.1).elim (ht.owned ow) fun h => keys_of_follows ((ho _).1 h)
    named := fun h => ht.named ((hkeys _).1 h).1 }

theorem SyncInv.created {l₁ l₂ : List DbChannel} {c : DbChannel} {categoryId : String}
    (ht : SyncInv t) (hl : t.ordered = l₁ ++ l₂) (hpos : c.position = l₁.length)
    (hnew : c.id ∉ t.channels.keys) (hnamed : c.id ≠ "") (hlast : c.type ≠ .category ∨ l₂ = [])
    (hcat : c.type ≠ .category → lastCategory l₁ "" = categoryId)
    (hsync : c.permSynced = true → c.type ≠ .category ∧
      ∃ k ∈ t.channels.rows, k.id = categoryId ∧ k.type = .category ∧ k.categorySync = true)
    (hover : t'.overwrites = t.overwrites)
    (hrows : t'.channels.rows =
      (t.repositioned (t.ordered.map DbChannel.id) (gap l₁.length)).channels.rows ++ [c]) :
    SyncInv t' ∧ ∀ id, id ≠ c.id → t'.rules id = t.rules id := by
  set u := t.repositioned (t.ordered.map DbChannel.id) (gap l₁.length) with hu
  have hr : Reordered t u := reordered_repositioned t _ _
  have hord := ordered_of_insert hl hpos hrows
  have hkeys : t'.channels.keys = t.channels.keys ++ [c.id] := by
    rw [← hr.keys, Table.keys, hrows, map_append]
    rfl
  have hunder : ∀ id, id ≠ c.id → parentIn t'.ordered "" id = parentIn t.ordered "" id :=
    fun id hid => parentIn_ordered_of_insert hl hpos hlast hrows hid
  have hin : ∀ b ∈ u.channels.rows, b ∈ t'.channels.rows := fun b hb =>
    hrows ▸ mem_append_left _ hb
  have hcase : ∀ b ∈ t'.channels.rows, b.id ≠ c.id → b ∈ u.channels.rows := fun b hb hne => by
    rw [hrows, mem_append, mem_singleton] at hb
    exact hb.resolve_right fun h => hne (h ▸ rfl)
  obtain ⟨g, hg⟩ := hr.rows
  have hmem : ∀ b ∈ t.channels.rows, { b with position := g b } ∈ t'.ordered := fun b hb =>
    mem_ordered.2 (hin _ (by rw [hg]; exact mem_map_of_mem hb))
  refine ht.carried (S := fun _ => False) (D := (· ≠ c.id)) {
    left := nofun
    stay := fun id parent hd _ h => h.mono ((hunder id hd).trans h.under)
      (fun b hb hbid hs => ⟨_, hmem b (mem_ordered.1 hb), hbid, hs⟩)
      fun b hb hbid hbt hbs => ⟨_, hmem b (mem_ordered.1 hb), hbid, hbt, hbs⟩
    unsynced := fun id hd hid b hb hbid =>
      hr.unsynced (hid.resolve_left not_false) b (hcase b hb (hbid ▸ hd)) hbid
    other := fun id _ _ => overwritesOf_eq hover id
    fresh := by
      intro b hb hd hs
      obtain rfl : b = c := by
        rw [hrows, mem_append, mem_singleton] at hb
        refine hb.resolve_left fun h => hnew ?_
        rw [← hr.keys, ← not_not.1 hd]
        exact mem_map_of_mem h
      obtain ⟨hbt, k, hk, hkid, hkt, hks⟩ := hsync hs
      have hkc : k.id ≠ b.id := fun h => hnew (h ▸ mem_map_of_mem hk)
      refine ⟨⟨categoryId, hkid ▸ hkc, ?_, ?_, ⟨b, mem_ordered.2 hb, rfl, hs⟩,
        _, hmem k hk, hkid, hkt, hks⟩, ?_⟩
      · rw [hord, parentIn_inserted ?_ hbt, lastCategory_congr (outline_mapIdx _ _), hcat hbt]
        intro h
        obtain ⟨d, hd, hdid⟩ := mem_map.1 h
        obtain ⟨i, hi, rfl⟩ := mem_mapIdx.1 hd
        have hmem : l₁[i] ∈ t.ordered := hl ▸ mem_append_left _ (getElem_mem hi)
        exact hnew (ids_ordered.1 (mem_map.2 ⟨_, hmem, hdid⟩))
      · rintro rfl
        exact ht.named (hkid ▸ mem_map_of_mem hk)
      · rw [overwritesOf_eq hover, overwritesOf_unknown ht hnew]
    parents := by
      intro id parent hd h hp
      have := category_of_parentIn ((hunder id hd).symm.trans h.under) h.named
      rcases this with h' | ⟨k, hk, hkid, -⟩
      · exact h.named h'
      · exact hnew (hp ▸ hkid ▸ mem_map_of_mem (mem_ordered.1 hk))
    owned := by
      intro ow how
      rw [hkeys]
      exact mem_append_left _ (ht.owned ow (hover ▸ how))
    named := by
      rw [hkeys, mem_append, mem_singleton, not_or]
      exact ⟨ht.named, Ne.symm hnamed⟩ }

/-! ## Rows of one channel -/

/-- A channel's rows changed; it is synced only if it follows and has none. -/
theorem SyncInv.edited {f : DbChannel → DbChannel} (ht : SyncInv t) (hf : Flags f)
    (hid : id ∈ t.channels.keys) (hrows : t'.channels.rows = t.channels.rows.map f)
    (hsame : ∀ c, c.id ≠ id → f c = c) (hsync : ∀ c, (f c).categorySync = c.categorySync)
    (hother : ∀ k, k ≠ id → t'.overwritesOf k = t.overwritesOf k)
    (howned : ∀ ow ∈ t'.overwrites.rows, ow ∈ t.overwrites.rows ∨ ow.channelId = id)
    (hself : t'.Unsynced id ∨
      (∃ parent, Follows t'.ordered id parent) ∧ t'.overwritesOf id = []) : SyncInv t' := by
  have hsynced : ∀ c ∈ t'.channels.rows, c.id ≠ id → c ∈ t.channels.rows := by
    intro c hc hne
    rw [hrows] at hc
    obtain ⟨b, hb, rfl⟩ := mem_map.1 hc
    rwa [hsame b (hf.id b ▸ hne)]
  have hkeys := hf.keys hrows
  refine ⟨fun c hc hs => ?_, fun c hc hs => ?_, fun ow how => ?_, hkeys ▸ ht.named⟩
  · by_cases hci : c.id = id
    · exact hci ▸ (hself.resolve_left fun h => by simp [h c hc hci] at hs).1
    · refine (ht.follows c (hsynced c hc hci) hs).imp fun parent h => ?_
      refine hf.follows hrows h (fun b hb hbs => ?_) fun b _ hbs => (hsync b).trans hbs
      rwa [hsame b (hb.symm ▸ hci)]
  · by_cases hci : c.id = id
    · exact hci ▸ (hself.resolve_left fun h => by simp [h c hc hci] at hs).2
    · rw [hother _ hci]
      exact ht.noRows c (hsynced c hc hci) hs
  · rw [hkeys]
    exact (howned ow how).elim (ht.owned ow) fun h => h ▸ hid

/-- One channel's rows and sync changed; it is synced only if it was. -/
structure Edits (id : String) (t t' : Tables) : Prop where
  flags : ∃ f : DbChannel → DbChannel, Flags f ∧ t'.channels.rows = t.channels.rows.map f ∧
    (∀ c, c.id ≠ id → f c = c) ∧ (∀ c, (f c).categorySync = c.categorySync) ∧
    ∀ c, (f c).permSynced = true → c.permSynced = true
  other : ∀ k, k ≠ id → t'.overwritesOf k = t.overwritesOf k
  owned : ∀ ow ∈ t'.overwrites.rows, ow ∈ t.overwrites.rows ∨ ow.channelId = id

theorem Edits.of_rows (hc : t'.channels = t.channels)
    (ho : ∀ k, k ≠ id → t'.overwritesOf k = t.overwritesOf k)
    (hr : ∀ ow ∈ t'.overwrites.rows, ow ∈ t.overwrites.rows ∨ ow.channelId = id) : Edits id t t' :=
  ⟨⟨fun c => c, ⟨fun _ => rfl, fun _ => rfl, fun _ => rfl⟩, by rw [hc]; simp, fun _ _ => rfl,
    fun _ => rfl, fun _ h => h⟩, ho, hr⟩

theorem Edits.refl : Edits id t t := .of_rows rfl (fun _ _ => rfl) fun _ => .inl

theorem Edits.trans {u : Tables} (h : Edits id t u) (h' : Edits id u t') : Edits id t t' := by
  obtain ⟨f, hf, hfr, hfo, hfc, hfs⟩ := h.flags
  obtain ⟨g, hg, hgr, hgo, hgc, hgs⟩ := h'.flags
  refine ⟨⟨g ∘ f, ⟨?_, ?_, ?_⟩, by rw [hgr, hfr, map_map], ?_, ?_, ?_⟩, ?_, ?_⟩
  · exact fun c => (hg.id _).trans (hf.id c)
  · exact fun c => (hg.type _).trans (hf.type c)
  · exact fun c => (hg.position _).trans (hf.position c)
  · intro c hc
    rw [Function.comp_apply, hfo c hc, hgo c hc]
  · exact fun c => (hgc _).trans (hfc c)
  · exact fun c hs => hfs c (hgs _ hs)
  · exact fun k hk => (h'.other k hk).trans (h.other k hk)
  · exact fun ow how => (h'.owned ow how).elim (h.owned ow) .inr

theorem Edits.unsynced (h : Edits id t t') (hu : t.Unsynced id) : t'.Unsynced id := by
  obtain ⟨f, hf, hr, -, -, hs⟩ := h.flags
  intro c hc hcid
  rw [hr] at hc
  obtain ⟨b, hb, rfl⟩ := mem_map.1 hc
  have := hu b hb ((hf.id b).symm.trans hcid)
  by_contra hne
  rw [hs b (by simpa using hne)] at this
  cases this

theorem Wrote.edits {rows : List DbOverwrite} (h : Wrote id rows false t t') :
    Edits id t t' ∧ t'.Unsynced id := by
  refine ⟨⟨⟨_, ⟨?_, ?_, ?_⟩, h.flags, fun c hc => if_neg hc, ?_, ?_⟩, h.other, h.owned⟩, ?_⟩
  · intro c
    split <;> rfl
  · intro c
    split <;> rfl
  · intro c
    split <;> rfl
  · intro c
    split <;> rfl
  · intro c hs
    split at hs
    · cases hs
    · exact hs
  · intro c hc hcid
    rw [h.flags] at hc
    obtain ⟨b, hb, rfl⟩ := mem_map.1 hc
    split at hcid
    · rw [if_pos ‹_›]
    · exact absurd hcid ‹_›

theorem edits_setPermSynced (hu : setPermSynced id false t = some t') :
    Edits id t t' ∧ t'.Unsynced id := by
  cases hu
  have hrows : ∀ c ∈ t.channels.rows.map fun c => if decide (c.id = id) = true then
      { c with permSynced := false } else c, c.id = id → c.permSynced = false := by
    intro c hc hcid
    obtain ⟨b, hb, rfl⟩ := mem_map.1 hc
    split at hcid
    · rw [if_pos ‹_›]
    · exact absurd (decide_eq_true hcid) ‹_›
  refine ⟨⟨⟨_, ⟨?_, ?_, ?_⟩, rfl, fun c hc => if_neg (by simpa using hc), ?_, ?_⟩, fun _ _ => rfl,
    fun _ => .inl⟩, hrows⟩
  · intro c
    split <;> rfl
  · intro c
    split <;> rfl
  · intro c
    split <;> rfl
  · intro c
    split <;> rfl
  · intro c hs
    split at hs
    · cases hs
    · exact hs

theorem SyncInv.of_edits (ht : SyncInv t) (hid : id ∈ t.channels.keys) (h : Edits id t t')
    (hu : t'.Unsynced id) : SyncInv t' := by
  obtain ⟨f, hf, hr, hsame, hsync, -⟩ := h.flags
  exact ht.edited hf hid hr hsame hsync h.other h.owned (.inl hu)

theorem SyncInv.unsynced_of_category (ht : SyncInv t) {c : DbChannel} (hc : c ∈ t.channels.rows)
    (htype : c.type = .category) : t.Unsynced c.id := by
  refine (ht.follows_or_unsynced c.id).resolve_left fun ⟨parent, hf⟩ => ?_
  exact type_of_parentIn t.nodup_ordered hf.under hf.named (mem_ordered.2 hc) rfl htype

theorem SyncInv.synced {parent : String} (ht : SyncInv t)
    (hu : parentIn t.ordered "" id = some parent) (hp : parent ≠ "")
    (hk : ∃ k ∈ t.channels.rows, k.id = parent ∧ k.type = .category ∧ k.categorySync = true)
    (hw : Wrote id [] true t t') : SyncInv t' := by
  obtain ⟨k, hkr, hkid, hkt, hks⟩ := hk
  have hf : Flags fun c => if c.id = id then { c with permSynced := true } else c := by
    constructor <;> intro c <;> split <;> rfl
  have hid : id ∈ t.ordered.map DbChannel.id := by
    by_contra h
    rw [parentIn_eq_none.2 h] at hu
    cases hu
  obtain ⟨c, hc, hcid⟩ := mem_map.1 hid
  have hmem : ∀ b ∈ t.channels.rows, (if b.id = id then { b with permSynced := true } else b) ∈
      t'.ordered := fun b hb => mem_ordered.2 (by rw [hw.flags]; exact mem_map_of_mem hb)
  refine ht.edited hf (ids_ordered.1 hid) hw.flags (fun c hc => if_neg hc)
    (fun c => by split <;> rfl) hw.other hw.owned (.inr ⟨⟨parent, ?_, hp, ?_, ?_⟩, hw.own⟩)
  · rw [ordered_of_map (fun c => ⟨hf.id c, hf.position c⟩) hw.flags,
      parentIn_congr (outline_map (fun c => ⟨hf.id c, hf.type c⟩) _), hu]
  · exact ⟨_, hmem c (mem_ordered.1 hc), (hf.id c).trans hcid, by rw [if_pos hcid]⟩
  · exact ⟨_, hmem k hkr, (hf.id k).trans hkid, (hf.type k).trans hkt, by split <;> exact hks⟩

end Tables
end Decibell
