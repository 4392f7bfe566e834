import Decibell.Community.DbChannels
import Decibell.Lib.Ordering

/-!
# Display order and layout

Channels are kept in no order and displayed by their positions. Writing the positions of a list of
all channels makes that list the display order (`ordered_renumber`), so a writer that renumbers the
channels as they are displayed changes no layout.
-/

namespace Decibell

open Lib Lib.Conn Tables List

namespace DbChannel

theorem le_iff (a b : DbChannel) :
    a.le b ↔ a.position < b.position ∨ a.position = b.position ∧ a.id ≤ b.id := .rfl

instance : Std.Total DbChannel.le where
  total a b := by
    simp only [le_iff]
    rcases lt_trichotomy a.position b.position with h | h | h
    · exact .inl (.inl h)
    · rcases String.le_total a.id b.id with hi | hi
      · exact .inl (.inr ⟨h, hi⟩)
      · exact .inr (.inr ⟨h.symm, hi⟩)
    · exact .inr (.inl h)

instance : IsTrans DbChannel DbChannel.le where
  trans a b c hab hbc := by
    simp only [le_iff] at *
    rcases hab with h | ⟨h, hi⟩ <;> rcases hbc with h' | ⟨h', hi'⟩
    · exact .inl (h.trans h')
    · exact .inl (h' ▸ h)
    · exact .inl (h ▸ h')
    · exact .inr ⟨h.trans h', String.le_trans hi hi'⟩

theorem eq_of_le {t : Table DbChannel.id} {a b : DbChannel} (ha : a ∈ t.rows) (hb : b ∈ t.rows)
    (hab : a.le b) (hba : b.le a) : a = b := by
  refine Table.eq_of_key ha hb ?_
  rcases hab with h | ⟨hp, hi⟩ <;> rcases hba with h' | ⟨hp', hi'⟩
  · exact absurd h (lt_asymm h')
  · exact absurd hp' (ne_of_gt h)
  · exact absurd hp (ne_of_gt h')
  · exact String.le_antisymm hi hi'

end DbChannel

namespace Tables

/-! ## Writing positions -/

/-- The tables once the channels `ids` have the positions `position 0`, … -/
def repositioned (t : Tables) (ids : List String) (position : Nat → Int) : Tables :=
  let channels := t.channels.updateWhere (·.id ∈ ids)
    fun c => { c with position := position (ids.idxOf c.id) }
  { t with channels }

theorem repositioned_cons (t : Tables) {id : String} {ids : List String} (h : id ∉ ids)
    (position : Nat → Int) :
    t.repositioned (id :: ids) position =
      (t.repositioned [id] position).repositioned ids (position ∘ Nat.succ) := by
  refine congrArg (fun channels => { t with channels }) (Table.ext_rows ?_)
  simp only [repositioned, Table.rows_updateWhere, map_map]
  refine map_congr_left fun c _ => ?_
  by_cases hc : c.id = id
  · simp [hc, h]
  · have hc' : id ≠ c.id := fun h => hc h.symm
    by_cases hm : c.id ∈ ids <;> simp [hc, hm, idxOf_cons, hc']

theorem applyAll_renumber {ids : List String} (h : ids.Nodup) (position : Nat → Int) (t : Tables) :
    applyAll (renumber ids position) t = some (t.repositioned ids position) := by
  induction ids generalizing position t with
  | nil =>
    refine congrArg some (congrArg (fun channels => { t with channels }) (Table.ext_rows ?_))
    simp [Table.rows_updateWhere]
  | cons id ids ih =>
    obtain ⟨hid, hids⟩ := nodup_cons.1 h
    have hstep : setPosition id (position 0) t = some (t.repositioned [id] position) := by
      refine congrArg some (congrArg (fun channels => { t with channels }) (Table.ext_rows ?_))
      simp only [Table.rows_updateWhere, mem_singleton]
      refine map_congr_left fun c _ => ?_
      by_cases hc : c.id = id <;> simp [hc]
    rw [renumber, mapIdx_cons, applyAll, foldlM_cons, hstep, repositioned_cons t hid]
    exact ih hids (position ∘ Nat.succ) (t.repositioned [id] position)

theorem perm_ordered (t : Tables) : t.ordered.Perm t.channels.rows := perm_insertionSort _ _

theorem nodup_ids {t : Tables} {l : List DbChannel} (hl : l.Perm t.channels.rows) :
    (l.map DbChannel.id).Nodup :=
  (hl.map DbChannel.id).nodup_iff.2 t.channels.nodup

theorem ordered_repositioned {t : Tables} {l : List DbChannel} (hl : l.Perm t.channels.rows)
    {position : Nat → Int} (hpos : ∀ i j, i < j → position i < position j) :
    (t.repositioned (l.map DbChannel.id) position).ordered =
      l.mapIdx fun i c => { c with position := position i } := by
  have hnodup := nodup_ids hl
  have hmap : l.mapIdx (fun i c => { c with position := position i }) =
      l.map fun c => if c.id ∈ l.map DbChannel.id then
        { c with position := position ((l.map DbChannel.id).idxOf c.id) } else c := by
    refine ext_getElem (by simp) fun i hi _ => ?_
    have hlen : i < (l.map DbChannel.id).length := by simpa using hi
    have hidx := hnodup.idxOf_getElem i hlen
    rw [getElem_map] at hidx
    rw [getElem_mapIdx, getElem_map, if_pos (mem_map_of_mem (getElem_mem _)), hidx]
  have hrows : (t.repositioned (l.map DbChannel.id) position).channels.rows.Perm
      (l.mapIdx fun i c => { c with position := position i }) := by
    rw [hmap]
    simp only [repositioned, Table.rows_updateWhere, decide_eq_true_eq]
    exact (hl.map _).symm
  refine insertionSort_eq_of_perm hrows ?_ fun a ha b hb => DbChannel.eq_of_le ha hb
  rw [pairwise_iff_getElem]
  intro i j hi hj hij
  rw [getElem_mapIdx, getElem_mapIdx]
  exact .inl (hpos i j hij)

end Tables

/-! ## The layout of rows -/

namespace ChannelLayout

theorem ofRows_mapIdx (rows : List DbChannel) (position : Nat → Int) (current : String)
    (l : ChannelLayout) :
    ofRows (rows.mapIdx fun i c => { c with position := position i }) current l =
      ofRows rows current l := by
  induction rows generalizing position current l with
  | nil => rfl
  | cons c cs ih =>
    rw [mapIdx_cons]
    simp only [ofRows]
    have ih' := fun current l => ih (position ∘ Nat.succ) current l
    simp only [Function.comp_def] at ih'
    split <;> exact ih' _ _

/-- The category above a channel in display order, `current` above them all; empty for a category.
    -/
def parentIn : List DbChannel → String → String → Option String
  | [], _, _ => none
  | c :: cs, current, id =>
    if c.id = id then some (if c.type = .category then "" else current)
    else parentIn cs (if c.type = .category then c.id else current) id

theorem parentIn_eq_none {rows : List DbChannel} {current id : String} :
    parentIn rows current id = none ↔ id ∉ rows.map DbChannel.id := by
  induction rows generalizing current with
  | nil => simp [parentIn]
  | cons c cs ih =>
    rw [parentIn, map_cons, mem_cons, not_or]
    by_cases hc : c.id = id
    · simp [hc]
    · rw [if_neg hc, ih]
      exact ⟨fun h => ⟨fun h' => hc h'.symm, h⟩, fun h => h.2⟩

theorem find?_parentOf {rows : List DbChannel} (hn : (rows.map DbChannel.id).Nodup)
    (current : String) (l : ChannelLayout) (id : String) :
    (ofRows rows current l).parentOf.find? id =
      (parentIn rows current id).or (l.parentOf.find? id) := by
  induction rows generalizing current l with
  | nil => rfl
  | cons c cs ih =>
    rw [map_cons, nodup_cons] at hn
    -- a later row has another id, so what this row says of its own stays
    have hlater : ∀ cur, c.id = id → parentIn cs cur id = none := fun cur h =>
      parentIn_eq_none.2 (h ▸ hn.1)
    rw [ofRows, parentIn]
    split
    all_goals
      rw [ih hn.2, Memo.find?_set]
      by_cases hc : c.id = id
      · rw [hlater _ hc, if_pos hc.symm, if_pos hc]
        rfl
      · rw [if_neg (Ne.symm hc), if_neg hc]

theorem find?_parentOf_ofRows {rows : List DbChannel} (hn : (rows.map DbChannel.id).Nodup)
    (id : String) : (ofRows rows "" {}).parentOf.find? id = parentIn rows "" id := by
  rw [find?_parentOf hn]
  exact Option.or_none

theorem find?_syncedOf {rows : List DbChannel} (hn : (rows.map DbChannel.id).Nodup)
    (current : String) (l : ChannelLayout) (id : String) :
    (ofRows rows current l).syncedOf.find? id =
      ((rows.find? (·.id = id)).map fun c => decide (c.type ≠ .category) && c.permSynced).or
        (l.syncedOf.find? id) := by
  induction rows generalizing current l with
  | nil => rfl
  | cons c cs ih =>
    rw [map_cons, nodup_cons] at hn
    have hlater : c.id = id → cs.find? (·.id = id) = none := fun h =>
      find?_eq_none.2 fun b hb hbi => hn.1 (mem_map.2
        ⟨b, hb, (of_decide_eq_true hbi).trans h.symm⟩)
    rw [ofRows, find?_cons]
    split <;> rename_i ht
    all_goals
      rw [ih hn.2, Memo.find?_set]
      by_cases hc : c.id = id
      · simp [hlater hc, hc, ht]
      · simp [hc, Ne.symm hc]

theorem find?_categorySyncOf {rows : List DbChannel} (hn : (rows.map DbChannel.id).Nodup)
    (current : String) (l : ChannelLayout) (id : String) :
    (ofRows rows current l).categorySyncOf.find? id =
      ((rows.find? fun c => c.id = id && c.type = .category).map DbChannel.categorySync).or
        (l.categorySyncOf.find? id) := by
  induction rows generalizing current l with
  | nil => rfl
  | cons c cs ih =>
    rw [map_cons, nodup_cons] at hn
    have hlater : c.id = id → (cs.find? fun c => c.id = id && c.type = .category) = none := fun h =>
      find?_eq_none.2 fun b hb hbi => hn.1 (mem_map.2
        ⟨b, hb, (of_decide_eq_true (Bool.and_elim_left hbi)).trans h.symm⟩)
    rw [ofRows, find?_cons]
    split <;> rename_i ht
    · rw [ih hn.2, Memo.find?_set]
      by_cases hc : c.id = id
      · simp [hlater hc, hc, ht]
      · simp [hc, Ne.symm hc]
    · rw [ih hn.2]
      simp [ht]

/-! ### Following a category -/

/-- `id` follows `parent`: it is synced, and `parent` is above it and syncs. -/
structure Follows (rows : List DbChannel) (id parent : String) : Prop where
  under : parentIn rows "" id = some parent
  named : parent ≠ ""
  synced : ∃ c ∈ rows, c.id = id ∧ c.permSynced = true
  syncs : ∃ k ∈ rows, k.id = parent ∧ k.type = .category ∧ k.categorySync = true

variable {rows : List DbChannel} {id parent : String}

theorem row_unique (hn : (rows.map DbChannel.id).Nodup) {b c : DbChannel} (hb : b ∈ rows)
    (hc : c ∈ rows) (h : b.id = c.id) : b = c :=
  inj_on_of_nodup_map hn hb hc h

theorem find?_id_of_mem (hn : (rows.map DbChannel.id).Nodup) {c : DbChannel} (hc : c ∈ rows) :
    rows.find? (·.id = c.id) = some c := by
  cases h : rows.find? (·.id = c.id) with
  | none => simpa using find?_eq_none.1 h c hc
  | some b =>
    have hb : b.id = c.id := by simpa using find?_some h
    rw [row_unique hn (mem_of_find?_eq_some h) hc hb]

theorem parentIn_of_category (hn : (rows.map DbChannel.id).Nodup) {c : DbChannel} (hc : c ∈ rows)
    (ht : c.type = .category) (current : String) : parentIn rows current c.id = some "" := by
  induction rows generalizing current with
  | nil => cases hc
  | cons b bs ih =>
    rw [map_cons, nodup_cons] at hn
    rw [parentIn]
    rcases mem_cons.1 hc with rfl | hc
    · simp [ht]
    · rw [if_neg fun h : b.id = c.id => hn.1 (h ▸ mem_map_of_mem hc)]
      exact ih hn.2 hc _

theorem category_of_parentIn {current : String} (h : parentIn rows current id = some parent)
    (hp : parent ≠ "") : parent = current ∨ ∃ k ∈ rows, k.id = parent ∧ k.type = .category := by
  induction rows generalizing current with
  | nil => cases h
  | cons b bs ih =>
    rw [parentIn] at h
    split at h
    · split at h
      · exact absurd (Option.some.inj h).symm hp
      · exact .inl (Option.some.inj h).symm
    · rcases ih h with rfl | ⟨k, hk, hid, ht⟩
      · split
        · exact .inr ⟨b, .head bs, rfl, ‹_›⟩
        · exact .inl rfl
      · exact .inr ⟨k, .tail b hk, hid, ht⟩

theorem type_of_parentIn (hn : (rows.map DbChannel.id).Nodup)
    (h : parentIn rows "" id = some parent) (hp : parent ≠ "") {c : DbChannel} (hc : c ∈ rows)
    (hid : c.id = id) : c.type ≠ .category := by
  intro ht
  have := parentIn_of_category hn hc ht ""
  rw [hid, h] at this
  exact hp (Option.some.inj this)

theorem ne_of_parentIn (hn : (rows.map DbChannel.id).Nodup)
    (h : parentIn rows "" id = some parent) (hp : parent ≠ "") : parent ≠ id := by
  rcases category_of_parentIn h hp with h' | ⟨k, hk, rfl, ht⟩
  · exact absurd h' hp
  · exact fun hid => type_of_parentIn hn h hp hk hid ht

theorem Follows.source (hn : (rows.map DbChannel.id).Nodup) (h : Follows rows id parent) :
    (ofRows rows "" {}).source id = parent := by
  obtain ⟨c, hc, rfl, hs⟩ := h.synced
  obtain ⟨k, hk, rfl, hkt, hks⟩ := h.syncs
  have hct := type_of_parentIn hn h.under h.named hc rfl
  have hp : (ofRows rows "" {}).parentOf.find? c.id = some k.id := by
    rw [find?_parentOf_ofRows hn, h.under]
  have hsy : (ofRows rows "" {}).syncedOf.find? c.id = some true := by
    rw [find?_syncedOf hn, find?_id_of_mem hn hc]
    simp [hct, hs]
  have hcs : (ofRows rows "" {}).categorySyncOf.find? k.id = some true := by
    have hfind : (rows.find? fun c => c.id = k.id && c.type = .category) = some k := by
      cases hf : rows.find? fun c => c.id = k.id && c.type = .category with
      | none => simpa [hkt] using find?_eq_none.1 hf k hk
      | some b =>
        have hb := find?_some hf
        simp only [Bool.and_eq_true, decide_eq_true_eq] at hb
        rw [row_unique hn (mem_of_find?_eq_some hf) hk hb.1]
    rw [find?_categorySyncOf hn, hfind, Option.map_some, hks]
    rfl
  simp [ChannelLayout.source, hp, h.named, hsy, hcs]

theorem follows_of_source (hn : (rows.map DbChannel.id).Nodup)
    (h : (ofRows rows "" {}).source id = parent) (hne : parent ≠ id) : Follows rows id parent := by
  simp only [ChannelLayout.source] at h
  split at h
  · exact absurd h.symm hne
  rename_i p hp
  rw [find?_parentOf_ofRows hn] at hp
  split at h
  · exact absurd h.symm hne
  rename_i hp0
  split at h
  · exact absurd h.symm hne
  rename_i hsy
  split at h
  swap
  · exact absurd h.symm hne
  rename_i hcs
  subst h
  refine ⟨hp, hp0, ?_, ?_⟩
  · rw [not_ne_iff, find?_syncedOf hn] at hsy
    cases hf : rows.find? (·.id = id) with
    | none => rw [hf] at hsy; cases hsy
    | some c =>
      rw [hf] at hsy
      simp only [Option.map_some, Option.some_or, Option.some.injEq, Bool.and_eq_true] at hsy
      exact ⟨c, mem_of_find?_eq_some hf, by simpa using find?_some hf, hsy.2⟩
  · rw [find?_categorySyncOf hn] at hcs
    cases hf : rows.find? fun c => c.id = p && c.type = .category with
    | none => rw [hf] at hcs; cases hcs
    | some k =>
      rw [hf] at hcs
      have hk := find?_some hf
      simp only [Bool.and_eq_true, decide_eq_true_eq] at hk
      exact ⟨k, mem_of_find?_eq_some hf, hk.1, hk.2, by simpa using hcs⟩

theorem mem_followers (hn : (rows.map DbChannel.id).Nodup) (hp : parent ≠ "") :
    id ∈ (ofRows rows "" {}).followers parent ↔ Follows rows id parent := by
  simp only [followers, mem_map, mem_filter, Prod.exists, exists_and_right, exists_eq_right,
    Memo.mem_entries, find?_parentOf_ofRows hn, decide_eq_true_eq]
  constructor
  · rintro ⟨p, hin, rfl, hs⟩
    exact follows_of_source hn hs (ne_of_parentIn hn hin hp)
  · exact fun h => ⟨parent, h.under, rfl, h.source hn⟩

/-- The pairs a reorder looks at: channels and the category they follow. -/
theorem mem_followed (hn : (rows.map DbChannel.id).Nodup) :
    (id, parent) ∈ (ofRows rows "" {}).followed ↔ Follows rows id parent := by
  simp only [followed, mem_filter, Memo.mem_entries, find?_parentOf_ofRows hn, decide_eq_true_eq]
  constructor
  · rintro ⟨hin, hp, hs⟩
    exact follows_of_source hn hs (ne_of_parentIn hn hin hp)
  · exact fun h => ⟨h.under, h.named, h.source hn⟩

theorem Follows.ne_parent (hn : (rows.map DbChannel.id).Nodup) {id' parent' : String}
    (h : Follows rows id parent) (h' : Follows rows id' parent') : id ≠ parent' := by
  rintro rfl
  obtain ⟨k, hk, hid, ht, -⟩ := h'.syncs
  exact type_of_parentIn hn h.under h.named hk hid ht

end ChannelLayout

theorem Tables.layout_repositioned {t : Tables} {l : List DbChannel} (hl : l.Perm t.channels.rows)
    {position : Nat → Int} (hpos : ∀ i j, i < j → position i < position j) :
    (t.repositioned (l.map DbChannel.id) position).layout = .ofRows l "" {} := by
  rw [layout, ordered_repositioned hl hpos, ChannelLayout.ofRows_mapIdx]

end Decibell
