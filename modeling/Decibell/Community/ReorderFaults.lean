import Decibell.Community.DeleteFaults
import Decibell.Community.SyncRuns

/-!
# Reordering channels when statements fail

The new positions are one transaction, and the rows that the channels moved out of their category
are to keep are another. Where only the first is committed a channel is left with the rules of its
new place; `ReordersSafely` is when it keeps those it had.
-/

namespace Decibell

open Lib Lib.Conn Tables ChannelLayout List

/-! ## Rules that stay -/

namespace Tables

variable {t t' : Tables} {id : String}

theorem source_congr (h : ∀ parent, Follows t'.ordered id parent ↔ Follows t.ordered id parent) :
    t'.layout.source id = t.layout.source id := by
  by_cases hs : t.layout.source id = id
  · rw [hs]
    by_contra hne
    have hf := (h _).1 (follows_of_source t'.nodup_ordered rfl hne)
    exact hne ((source_of_follows hf).symm.trans hs)
  · exact source_of_follows ((h _).2 (follows_of_source t.nodup_ordered rfl hs))

/-- Positions, and other channels' flags, do not bear on what a channel follows. -/
theorem follows_iff_of_map {f : DbChannel → DbChannel} {parent : String}
    (hrows : t'.channels.rows = t.channels.rows.map f) (hid : ∀ c, (f c).id = c.id)
    (htype : ∀ c, (f c).type = c.type) (hsync : ∀ c, (f c).categorySync = c.categorySync)
    (hs : ∀ c ∈ t.channels.rows, c.id = id → (f c).permSynced = c.permSynced)
    (hu : parentIn t'.ordered "" id = parentIn t.ordered "" id) :
    Follows t'.ordered id parent ↔ Follows t.ordered id parent := by
  have hmem : ∀ c, c ∈ t'.ordered ↔ ∃ b ∈ t.ordered, f b = c := fun c => by
    simp only [mem_ordered, hrows, mem_map]
  constructor
  · rintro ⟨hunder, hnamed, ⟨c, hc, hcid, hcs⟩, k, hk, hkid, hkt, hks⟩
    obtain ⟨b, hb, rfl⟩ := (hmem c).1 hc
    obtain ⟨j, hj, rfl⟩ := (hmem k).1 hk
    rw [hid] at hcid hkid
    rw [hs b (mem_ordered.1 hb) hcid] at hcs
    exact ⟨hu ▸ hunder, hnamed, ⟨b, hb, hcid, hcs⟩, j, hj, hkid, htype j ▸ hkt, hsync j ▸ hks⟩
  · rintro ⟨hunder, hnamed, ⟨b, hb, hbid, hbs⟩, j, hj, hjid, hjt, hjs⟩
    refine ⟨hu.trans hunder, hnamed, ⟨f b, (hmem _).2 ⟨b, hb, rfl⟩, (hid b).trans hbid, ?_⟩, f j,
      (hmem _).2 ⟨j, hj, rfl⟩, (hid j).trans hjid, (htype j).trans hjt, (hsync j).trans hjs⟩
    exact (hs b (mem_ordered.1 hb) hbid).trans hbs

theorem rules_congr (hs : t'.layout.source id = t.layout.source id)
    (ho : t'.overwritesOf (t.layout.source id) = t.overwritesOf (t.layout.source id)) :
    t'.rules id = t.rules id := by
  rw [rules, hs, ho, rules]

theorem SameLayout.rules (h : SameLayout t t') (id : String) : t'.rules id = t.rules id := by
  obtain ⟨f, hf⟩ := h.rows
  refine rules_congr (source_congr fun parent => ?_) (overwritesOf_eq h.overwrites _)
  exact follows_iff_of_map hf (fun _ => rfl) (fun _ => rfl) (fun _ => rfl) (fun _ _ _ => rfl)
    (h.under id)

theorem SameLayout.parentCategory (h : SameLayout t t') (id : String) :
    t'.layout.parentCategory id = t.layout.parentCategory id := by
  rw [ChannelLayout.parentCategory, layout, find?_parentOf_ofRows t'.nodup_ordered, h.under,
    ChannelLayout.parentCategory, layout, find?_parentOf_ofRows t.nodup_ordered]

/-! ## Channels that follow nothing are no longer synced -/

/-- Only the flags of channels `ids` changed. -/
structure Unsyncs (ids : List String) (t t' : Tables) : Prop where
  overwrites : t'.overwrites = t.overwrites
  rows : t'.channels.rows = t.channels.rows.map fun c =>
    if c.id ∈ ids then { c with permSynced := false } else c

theorem exists_unsyncs (ids : List String) (t : Tables) :
    ∃ t', applyAll (ids.map (setPermSynced · false)) t = some t' ∧ Unsyncs ids t t' := by
  induction ids generalizing t with
  | nil => exact ⟨t, rfl, rfl, by simp⟩
  | cons id ids ih =>
    obtain ⟨u, hu⟩ : ∃ u, setPermSynced id false t = some u := ⟨_, rfl⟩
    obtain ⟨t', ht', ho, hr⟩ := ih u
    refine ⟨t', ?_, ?_, ?_⟩
    · rw [map_cons, applyAll, foldlM_cons, hu]
      exact ht'
    · cases hu
      exact ho
    · cases hu
      rw [hr, Table.rows_updateWhere, map_map]
      refine map_congr_left fun c _ => ?_
      by_cases hc : c.id = id
      · simp [hc]
      · simp [hc]

theorem Unsyncs.under {ids : List String} (h : Unsyncs ids t t') (id : String) :
    parentIn t'.ordered "" id = parentIn t.ordered "" id := by
  rw [ordered_of_map (fun c => by split <;> exact ⟨rfl, rfl⟩) h.rows,
    parentIn_congr (outline_map _ _)]
  intro c
  split <;> exact ⟨rfl, rfl⟩

theorem Unsyncs.rules {ids : List String} (h : Unsyncs ids t t')
    (hids : ∀ id ∈ ids, t.layout.source id = id) (id : String) : t'.rules id = t.rules id := by
  refine rules_congr ?_ (overwritesOf_eq h.overwrites _)
  by_cases hid : id ∈ ids
  · refine (source_of_unsynced fun c hc hcid => ?_).trans (hids id hid).symm
    rw [h.rows] at hc
    obtain ⟨b, hb, rfl⟩ := mem_map.1 hc
    by_cases hbid : b.id ∈ ids
    · rw [if_pos hbid]
    · rw [if_neg hbid] at hcid
      exact absurd (hcid ▸ hid) hbid
  · refine source_congr fun parent => follows_iff_of_map h.rows (fun c => ?_) (fun c => ?_)
      (fun c => ?_) (fun c _ hc => ?_) (h.under id)
    · split <;> rfl
    · split <;> rfl
    · split <;> rfl
    · rw [if_neg (hc ▸ hid)]

/-! ## Copies that stay -/

/-- A channel without a copy that follows none with one has its rules. -/
theorem Kept.rules {rows : String → List DbOverwrite} {channels : List (String × String)}
    (h : Kept rows channels t t') (hid : id ∉ channels.map Prod.fst)
    (hsource : t.layout.source id ∉ channels.map Prod.fst) : t'.rules id = t.rules id := by
  have hu : parentIn t'.ordered "" id = parentIn t.ordered "" id := by
    rw [h.ordered, parentIn_congr (outline_map _ _)]
    intro c
    split <;> exact ⟨rfl, rfl⟩
  refine rules_congr (source_congr fun parent => ?_) (h.other _ hsource)
  refine follows_iff_of_map h.flags (fun c => ?_) (fun c => ?_) (fun c => ?_) (fun c _ hc => ?_) hu
  · split <;> rfl
  · split <;> rfl
  · split <;> rfl
  · rw [if_neg (hc ▸ hid)]

end Tables
namespace CommunityDb

open Memory

/-! ## What a reorder leaves -/

/-- The new positions, and nothing else. -/
def moveOnly (orderedIds : List String) (t : Tables) : Tables :=
  t.repositioned orderedIds fun i => i

/-- The channels no longer under a category they followed, with it. -/
def movedBy (orderedIds : List String) (t : Tables) : List (String × String) :=
  (moveOnly orderedIds t).layout.movedFrom t.layout.followed

/-- The new positions are committed. -/
def Repositions (orderedIds : List String) (t : Tables) (os : List Outcome) : Prop :=
  (orderedIds.Nodup ∧ orderedIds ⊆ t.channels.keys ∧ t.channels.keys ⊆ orderedIds) ∧
    nextOf os = .ok ∧ committed orderedIds.length os.tail

/-- The answers left once the channels are in normal order. -/
def copying (orderedIds : List String) (t : Tables) (os : List Outcome) : List Outcome :=
  transacted t.channels.rows.length (afterwards orderedIds.length os.tail)

/-- The copies for the channels that are moved are committed. -/
def CopiesRows (orderedIds : List String) (t : Tables) (os : List Outcome) : Prop :=
  nextOf (copying orderedIds t os) = .ok ∧
    committed (copyCount t.overwritesOf (movedBy orderedIds t)) (copying orderedIds t os).tail

/-- A reorder changes no rules: the new positions are not committed, or a channel whose rules they
    alone change followed a category it leaves, and the copies are committed. -/
def ReordersSafely (orderedIds : List String) (t : Tables) (os : List Outcome) : Prop :=
  Repositions orderedIds t os → ∀ id, (moveOnly orderedIds t).rules id ≠ t.rules id →
    id ∈ (movedBy orderedIds t).map Prod.fst ∧ CopiesRows orderedIds t os

instance (orderedIds : List String) (t : Tables) (os : List Outcome) :
    Decidable (CopiesRows orderedIds t os) :=
  inferInstanceAs (Decidable (_ ∧ _))

variable {t t' u : Tables} {os : List Outcome} {orderedIds : List String}

theorem mem_movedBy {id parent : String} : (id, parent) ∈ movedBy orderedIds t ↔
    Follows t.ordered id parent ∧ (moveOnly orderedIds t).layout.parentCategory id ≠ parent := by
  rw [movedBy, movedFrom, mem_filter, ← mem_followed t.nodup_ordered]
  exact and_congr_right fun _ => decide_eq_true_iff

theorem parentCategory_of_follows {id parent : String} (h : Follows t.ordered id parent) :
    t.layout.parentCategory id = parent := by
  rw [ChannelLayout.parentCategory, Tables.layout, find?_parentOf_ofRows t.nodup_ordered, h.under]
  rfl

theorem nodup_movedBy (orderedIds : List String) (t : Tables) :
    ((movedBy orderedIds t).map Prod.fst).Nodup :=
  t.layout.parentOf.nodup.sublist ((filter_sublist.trans filter_sublist).map _)

/-- Positions alone change the rules only of channels moved out of a category they followed. -/
theorem mem_movedBy_of_rules (ht : SyncInv t) {id : String}
    (h : (moveOnly orderedIds t).rules id ≠ t.rules id) :
    id ∈ (movedBy orderedIds t).map Prod.fst := by
  have hr : Reordered t (moveOnly orderedIds t) := reordered_repositioned t _ _
  rcases ht.follows_or_unsynced id with ⟨parent, hf⟩ | hu
  · refine mem_map.2 ⟨(id, parent), mem_movedBy.2 ⟨hf, fun hp => h ?_⟩, rfl⟩
    have hunder := parentIn_of_parentCategory (t := moveOnly orderedIds t) (hp ▸ hf.named)
    rw [hp] at hunder
    rw [rules_of_follows (hr.follows hf hunder), rules_of_follows hf, overwritesOf_eq hr.overwrites]
  · refine absurd ?_ h
    rw [rules_of_unsynced (hr.unsynced hu), rules_of_unsynced hu, overwritesOf_eq hr.overwrites]

theorem ReordersSafely.of_copies (ht : SyncInv t) (h : CopiesRows orderedIds t os) :
    ReordersSafely orderedIds t os :=
  fun _ _ hne => ⟨mem_movedBy_of_rules ht hne, h⟩

theorem rules_kept (hu : Reordered t u) (hsame : SameLayout (moveOnly orderedIds t) u)
    (hk : Kept u.overwritesOf (movedBy orderedIds t) u t') (id : String) : t'.rules id =
      if id ∈ (movedBy orderedIds t).map Prod.fst then t.rules id
      else (moveOnly orderedIds t).rules id := by
  split
  · rename_i hid
    obtain ⟨⟨_, parent⟩, he, rfl⟩ := mem_map.1 hid
    rw [rules_of_unsynced (hk.unsynced (.inl hid)), hk.own _ he, DbOverwrite.rules_of,
      rules_of_follows (mem_movedBy.1 he).1, overwritesOf_eq hu.overwrites]
  · rename_i hid
    rw [← hsame.rules id]
    refine hk.rules hid fun hm => ?_
    -- a channel that was moved out of a category is none itself
    obtain ⟨⟨source, parent⟩, he, hs⟩ := mem_map.1 hm
    have hs : source = u.layout.source id := hs
    have hne : u.layout.source id ≠ id := fun h => hid (h ▸ hm)
    obtain ⟨k, hk, hkid, hkt, -⟩ := (follows_of_source u.nodup_ordered rfl hne).syncs
    have hf := (mem_movedBy.1 he).1
    obtain ⟨g, hg⟩ := hu.rows
    rw [mem_ordered, hg] at hk
    obtain ⟨b, hb, rfl⟩ := mem_map.1 hk
    exact type_of_parentIn t.nodup_ordered hf.under hf.named (mem_ordered.2 hb)
      (hkid.trans hs.symm) hkt

theorem facing_enforceSyncInvariant :
    Triple (Facing (RemembersLayout t.layout) ⟨t, none, os⟩) enforceSyncInvariant
      fun _ d => ∀ id, d.tables.rules id = t.rules id := by
  refine facing_getLayout_fresh rfl (fun _ h => h) (fun _ _ _ => rfl) (.ite (fun _ => ?_) fun _ => ?_)
  · refine facing_begin (fun _ => ?_) fun _ => .pure fun d hd id => by rw [hd.tables]
    generalize hids : List.map (·.1) (List.filter _ t.layout.syncedOf.entries) = ids
    have hsource : ∀ id ∈ ids, t.layout.source id = id := by
      intro id hid
      rw [← hids] at hid
      obtain ⟨e, he, rfl⟩ := mem_map.1 hid
      have := (mem_filter.1 he).2
      simp only [Bool.and_eq_true, decide_eq_true_eq] at this
      exact this.2
    obtain ⟨t', ht', hun⟩ := exists_unsyncs ids t
    refine facing_transaction ht' ((facing_forgetLayout (N := fun _ => True) fun _ _ => trivial).conseq
      (fun _ h => h) fun _ d hd id => ?_)
    rw [hd.tables, ended]
    dsimp only
    split
    · exact hun.rules hsource id
    · rfl
  · exact .pure fun d hd id => by rw [hd.tables]

/-- The rules after a reorder whose positions are committed. -/
def RulesAfter (orderedIds : List String) (t : Tables) (os : List Outcome) (id : String)
    (rules : List (Int × String × Permissions × Permissions)) : Prop :=
  (CopiesRows orderedIds t os → id ∈ (movedBy orderedIds t).map Prod.fst → rules = t.rules id) ∧
    (¬(CopiesRows orderedIds t os ∧ id ∈ (movedBy orderedIds t).map Prod.fst) →
      rules = (moveOnly orderedIds t).rules id)

theorem facing_endReorder {M : Memory → Prop} (hM : ∀ m, M m → RemembersLayout t'.layout m)
    {R : (String → List (Int × String × Permissions × Permissions)) → Prop} (hR : R t'.rules) :
    Triple (Facing M ⟨t', none, os⟩) (do enforceSyncInvariant; return true)
      fun _ d => R d.tables.rules := by
  refine Triple.bind (facing_enforceSyncInvariant.conseq (fun _ h => h.imp hM) fun _ _ h => h)
    fun _ => .pure fun d hd => ?_
  rwa [show d.tables.rules = t'.rules from funext hd]

theorem facing_finishReorder {M : Memory → Prop} {c : Conn Tables} {kept : Bool}
    (hrun : (finish kept).run c = ((), ⟨t', none, os⟩))
    {R : (String → List (Int × String × Permissions × Permissions)) → Prop} (hR : R t'.rules) :
    Triple (Facing M c) (do
      sql (finish kept)
      invalidateChannelLayout
      enforceSyncInvariant
      return true) fun _ d => R d.tables.rules := by
  refine (facing_sql hrun).bind fun _ => .of_and fun _ => ?_
  refine facing_invalidateLayout (N := fun m => m.layoutValid = false) (fun _ _ => rfl) ?_
  exact facing_endReorder (fun m h hv => absurd (h.symm.trans hv) (by decide)) hR

theorem facing_copyRows {l : List Outcome} (hl : l = copying orderedIds t os) (hu : Reordered t u)
    (hsame : SameLayout (moveOnly orderedIds t) u) :
    Triple (Facing (fun m => m.overwritesCache.Sound t.overwritesOf ∧ RemembersLayout u.layout m)
        ⟨u, none, l⟩) (do
        if movedBy orderedIds t ≠ [] then
          if ← sql begin then
            let kept ← keepOverwrites overwrites (movedBy orderedIds t)
            sql (finish kept)
            invalidateChannelLayout
        enforceSyncInvariant
        return true)
      fun _ d => ∀ id, RulesAfter orderedIds t os id (d.tables.rules id) := by
  have hover : u.overwritesOf = t.overwritesOf := funext (overwritesOf_eq hu.overwrites)
  let R : (String → List (Int × String × Permissions × Permissions)) → Prop := fun rules =>
    ∀ id, RulesAfter orderedIds t os id (rules id)
  have hcopies : CopiesRows orderedIds t os ↔
      nextOf l = .ok ∧ committed (copyCount t.overwritesOf (movedBy orderedIds t)) l.tail := by
    rw [hl, CopiesRows]
  -- without the copies, the rules are those of the new positions
  have hmoved : (¬CopiesRows orderedIds t os ∨ movedBy orderedIds t = []) →
      R u.rules := fun h id => by
    refine ⟨fun hc hm => ?_, fun _ => hsame.rules id⟩
    rcases h with h | h
    · exact absurd hc h
    · rw [h] at hm
      cases hm
  refine .ite (fun _ => facing_begin (fun ho => ?_) fun ho => ?_) fun hnil => ?_
  · refine Triple.bind (facing_keepOverwrites (r := u.overwritesOf)
      (P := fun k => ∃ id, Follows t.ordered id k) (nodup_movedBy orderedIds t) ?parents
      (fun k => ⟨u, k, rfl⟩) ?rows
      (fun id m h => ⟨h.1.erase id, h.2⟩) fun _ _ => rfl) fun kept => ?ends
    case ends =>
      rw [hover]
      rintro d (⟨rfl, hlast, t', hk, hd⟩ | ⟨rfl, hlast, v, -, hd⟩)
      · refine facing_finishReorder run_finish_true (R := R) ?_ d hd
        split
        · rename_i hnext
          have hc : CopiesRows orderedIds t os := hcopies.2 ⟨ho, hlast, hnext⟩
          intro id
          rw [← hover] at hk
          have := rules_kept hu hsame hk id
          exact ⟨fun _ hm => this.trans (if_pos hm),
            fun hm => this.trans (if_neg fun h => hm ⟨hc, h⟩)⟩
        · rename_i hnext
          exact hmoved (.inl fun hc => hnext (hcopies.1 hc).2.2)
      · exact facing_finishReorder (run_finish_false _) (R := R)
          (hmoved (.inl fun hc => hlast (hcopies.1 hc).2.1)) d hd
    case parents =>
      intro e he ⟨_, hf'⟩
      exact (mem_movedBy.1 he).1.ne_parent t.nodup_ordered hf' rfl
    case rows =>
      intro e he v os' hv
      refine facing_overwrites (fun m h w hf => ?_) (fun m h => ⟨?_, h.2⟩)
        (hv e.2 ⟨_, (mem_movedBy.1 he).1⟩)
      · rw [hover]
        exact h.1 _ w hf
      · rw [hover]
        exact (h.1.bound _).emplace e.2
  · exact facing_endReorder (fun m h => h.2) (R := R)
      (hmoved (.inl fun hc => ho (hcopies.1 hc).1))
  · exact facing_endReorder (fun m h => h.2) (R := R)
      (hmoved (.inr (not_not.1 hnil)))

theorem facing_reorderChannels {X : Uid → Table DbMeta.key → Prop} (orderedIds : List String)
    (t : Tables) (os : List Outcome) :
    Triple (Facing (Memory.Sound X · t) ⟨t, none, os⟩) (reorderChannels orderedIds) fun _ d =>
      (Repositions orderedIds t os → ∀ id, RulesAfter orderedIds t os id (d.tables.rules id)) ∧
        (¬Repositions orderedIds t os → ∀ id, d.tables.rules id = t.rules id) := by
  refine .get_bind fun d hd => ?_
  rw [hd.tables]
  refine .ite (fun hids => facing_getLayout ?_) fun hids => .pure fun d hd =>
    ⟨fun h => absurd h.1 hids, fun _ id => by rw [hd.tables]⟩
  -- from here on only the rows of the followed categories are asked for
  let M : Memory → Prop := fun m => m.overwritesCache.Sound t.overwritesOf
  refine Triple.conseq (P := Facing M ⟨t, none, os⟩) (facing_begin (fun ho => ?_)
    fun ho => .pure fun d hd => ⟨fun h => absurd h.2.1 ho, fun _ id => by rw [hd.tables]⟩)
    (fun _ h => h.imp fun _ hm => hm.overwrites) fun _ _ h => h
  refine facing_transaction (applyAll_renumber hids.1 _ t)
    (facing_invalidateLayout (N := M) (fun _ h => h) ?_)
  rw [length_renumber]
  have hids' : Repositions orderedIds t os ↔ committed orderedIds.length os.tail :=
    ⟨fun h => h.2.2, fun h => ⟨hids, ho, h⟩⟩
  refine .ite (fun hlast => ?_) fun hlast => .pure fun d hd => ?_
  swap
  · -- a position could not be written: the transaction was undone
    have hno : ¬committed orderedIds.length os.tail := fun h => hlast (decide_eq_true h.1)
    refine ⟨fun h => absurd (hids'.1 h) hno, fun _ id => ?_⟩
    rw [hd.tables, ended]
    simp only [if_neg hno]
  obtain ⟨v, hv⟩ : ∃ v, v =
      if committed orderedIds.length os.tail then moveOnly orderedIds t else t := ⟨_, rfl⟩
  have hlen : v.channels.rows.length = t.channels.rows.length := by
    obtain ⟨f, hf⟩ := (reordered_repositioned t orderedIds fun i => i).rows
    rw [hv]
    split
    · rw [moveOnly, hf, length_map]
    · rfl
  have hnormal : Triple (Facing M (ended os.tail orderedIds.length (moveOnly orderedIds t) t))
      normalizeChannelOrder fun _ d => ∃ u, SameLayout v u ∧
        Facing M ⟨u, none, copying orderedIds t os⟩ d := by
    rw [ended, ← hv, copying, ← hlen]
    exact facing_normalizeChannelOrder fun _ h => h
  refine hnormal.bind fun _ => .of_exists fun u => .of_and fun hsame => ?_
  let ML : Memory → Prop := fun m => M m ∧ RemembersLayout u.layout m
  refine Triple.bind (Q := fun _ => Facing ML ⟨u, none, copying orderedIds t os⟩)
    (fun d hd => ⟨⟨hd.memory, fun _ => congrArg Tables.layout hd.tables⟩, hd.conn⟩) fun _ => ?_
  refine facing_getLayout_fresh rfl (fun _ h => h.2) (fun _ h => ⟨h.1, fun _ => rfl⟩) ?_
  by_cases hc : committed orderedIds.length os.tail
  · rw [hv, if_pos hc] at hsame
    have hmoved : u.layout.movedFrom t.layout.followed = movedBy orderedIds t := by
      rw [movedBy, movedFrom, movedFrom]
      simp only [hsame.parentCategory]
    rw [hmoved]
    have hu : Reordered t u := (reordered_repositioned t _ _).trans hsame.toReordered
    exact (facing_copyRows rfl hu hsame).conseq (fun _ h => h) fun _ d hd =>
      ⟨fun _ => hd, fun h => absurd (hids'.2 hc) h⟩
  · rw [hv, if_neg hc] at hsame
    -- the commit failed, so every channel is where it was
    have hmoved : u.layout.movedFrom t.layout.followed = [] := by
      refine filter_eq_nil_iff.2 fun e he hne => of_decide_eq_true hne ?_
      rw [hsame.parentCategory]
      exact parentCategory_of_follows ((mem_followed t.nodup_ordered).1 he)
    rw [hmoved, if_neg (not_not.2 rfl)]
    refine facing_endReorder (fun _ h => h.2) (R := fun rules =>
      (Repositions orderedIds t os → ∀ id, RulesAfter orderedIds t os id (rules id)) ∧
        (¬Repositions orderedIds t os → ∀ id, rules id = t.rules id)) ?_
    exact ⟨fun h => absurd (hids'.1 h) hc, fun _ id => hsame.rules id⟩

theorem syncInv_hidden : SyncInv hidden where
  follows := by
    intro c hc hs
    rcases mem_cons.1 hc with rfl | hc
    · cases hs
    · cases mem_singleton.1 hc
      exact ⟨"k", follows_hidden⟩
  noRows := by decide
  owned := by decide
  named := by decide

/-- The server stops once the positions are committed, or refuses every later transaction. -/
def stopped : CommunityDb :=
  ((reorderChannels ["a", "k"]).run (privateCategory [.ok, .ok, .ok, .ok, .fail, .fail, .fail])).2

end CommunityDb
end Decibell
