import Decibell.Community.Faults
import Mathlib.Data.List.Chain

/-!
# The order of channels

Channels are in order when their positions are 0, 1, … in display order and no text channel comes
below a voice channel of its group (`InOrder`).

* `inOrder_normalized`: what the normal order is for;
* `Inserted`: a new channel at its index, and what it takes that the order is kept.
-/

namespace Decibell

open Lib Lib.Conn Tables ChannelLayout List

/-! ## Groups -/

/-- Between a voice channel and a text channel below it a category begins. -/
def Grouped (types : List ChannelType) : Prop :=
  ∀ as bs cs, types = as ++ .voice :: (bs ++ .text :: cs) → .category ∈ bs

/-- The second type may come right below the first. -/
def ChannelType.Above (a b : ChannelType) : Prop := a = .voice → b ≠ .text

theorem isChain_of_grouped {types : List ChannelType} (h : Grouped types) :
    types.IsChain ChannelType.Above := by
  refine isChain_iff_forall_rel_of_append_cons_cons.2 fun a b as bs heq ha hb => ?_
  subst ha hb
  exact absurd (h as [] bs heq) not_mem_nil

theorem grouped_of_isChain {types : List ChannelType} (h : types.IsChain ChannelType.Above) :
    Grouped types := by
  rintro as bs cs rfl
  replace h := (isChain_split.1 h).2
  induction bs with
  | nil => exact absurd rfl ((isChain_cons.1 h).1 .text rfl rfl)
  | cons b bs ih =>
    obtain ⟨hb, h⟩ := isChain_cons.1 h
    cases b with
    | text => exact absurd rfl (hb .text rfl rfl)
    | voice => exact .tail _ (ih h)
    | category => exact .head _

theorem Grouped.of_append {as bs : List ChannelType} (h : Grouped (as ++ bs)) : Grouped as := by
  rintro ds es fs rfl
  refine h ds es (fs ++ bs) ?_
  simp only [append_assoc, cons_append]

theorem Grouped.insert {as bs : List ChannelType} {a : ChannelType} (h : Grouped (as ++ bs))
    (hbefore : a = .text → as.getLast? ≠ some .voice)
    (hafter : a = .voice → bs.head? ≠ some .text) :
    Grouped (as ++ a :: bs) := by
  obtain ⟨has, hbs, -⟩ := isChain_append.1 (isChain_of_grouped h)
  refine grouped_of_isChain (isChain_append.2 ⟨has, isChain_cons.2 ⟨?_, hbs⟩, ?_⟩)
  · rintro b hb rfl rfl
    exact hafter rfl hb
  · rintro b hb c hc rfl rfl
    cases hc
    exact hbefore rfl hb

theorem grouped_normalizeRows (rows : List DbChannel) :
    Grouped ((normalizeRows rows [] []).map DbChannel.type) := by
  refine grouped_of_isChain ?_
  suffices h : ∀ texts voices : List DbChannel, (∀ c ∈ texts, c.type = .text) →
      (∀ c ∈ voices, c.type = .voice) →
        ((normalizeRows rows texts voices).map DbChannel.type).IsChain ChannelType.Above from
    h [] [] (fun c hc => absurd hc not_mem_nil) fun c hc => absurd hc not_mem_nil
  have hgroup : ∀ texts voices : List DbChannel, (∀ c ∈ texts, c.type = .text) →
      (∀ c ∈ voices, c.type = .voice) →
        ((texts ++ voices).map DbChannel.type).IsChain ChannelType.Above := by
    intro texts voices ht hv
    refine List.Pairwise.isChain (pairwise_map.2 (pairwise_append.2 ⟨?_, ?_, ?_⟩))
    · refine pairwise_of_forall_mem_list fun a ha b _ hvoice => ?_
      rw [ht a ha] at hvoice
      cases hvoice
    · refine pairwise_of_forall_mem_list fun a _ b hb _ => ?_
      rw [hv b hb]
      exact ChannelType.noConfusion
    · intro a ha b _ hvoice
      rw [ht a ha] at hvoice
      cases hvoice
  induction rows with
  | nil => exact hgroup
  | cons c cs ih =>
    intro texts voices ht hv
    rw [normalizeRows]
    split
    · rename_i hc
      refine ih _ _ (fun b hb => ?_) hv
      rcases mem_append.1 hb with hb | hb
      · exact ht b hb
      · rw [mem_singleton.1 hb, hc]
    · rename_i hc
      refine ih _ _ ht fun b hb => ?_
      rcases mem_append.1 hb with hb | hb
      · exact hv b hb
      · rw [mem_singleton.1 hb, hc]
    · rename_i hc
      have hrest := ih [] [] (fun c hc => absurd hc not_mem_nil)
        fun c hc => absurd hc not_mem_nil
      rw [map_append, map_cons]
      refine isChain_append.2 ⟨hgroup texts voices ht hv, isChain_cons.2 ⟨?_, hrest⟩, ?_⟩
      · intro b _ hvoice
        rw [hc] at hvoice
        cases hvoice
      · intro a _ b hb _
        cases hb
        rw [hc]
        exact ChannelType.noConfusion

/-! ## The order of the tables -/

namespace Tables

variable {t t' u : Tables}

structure InOrder (t : Tables) : Prop where
  dense : t.ordered.map DbChannel.position =
    (List.range t.channels.rows.length).map fun i : Nat => (i : Int)
  grouped : Grouped (t.ordered.map DbChannel.type)

/-- What the order is of. -/
def places (rows : List DbChannel) : List (String × ChannelType × Int) :=
  rows.map fun c => (c.id, c.type, c.position)

theorem length_ordered (t : Tables) : t.ordered.length = t.channels.rows.length :=
  (perm_ordered t).length_eq

theorem map_of_places {α : Type} {rows rows' : List DbChannel} (h : places rows' = places rows)
    (f : String × ChannelType × Int → α) :
    rows'.map (fun c => f (c.id, c.type, c.position)) =
      rows.map fun c => f (c.id, c.type, c.position) := by
  have := congrArg (List.map f) h
  simpa only [places, map_map, Function.comp_def] using this

theorem length_of_places {rows rows' : List DbChannel} (h : places rows' = places rows) :
    rows'.length = rows.length := by
  have := congrArg List.length h
  simpa only [places, length_map] using this

theorem InOrder.of_places (h : places t'.ordered = places t.ordered) (ht : t.InOrder) :
    t'.InOrder := by
  refine ⟨?_, ?_⟩
  · rw [map_of_places h fun p => p.2.2, ht.dense, ← length_ordered, ← length_ordered,
      length_of_places h]
  · rw [map_of_places h fun p => p.2.1]
    exact ht.grouped

theorem positions_mapIdx (rows : List DbChannel) (position : Nat → Int) :
    (rows.mapIdx fun i c => { c with position := position i }).map DbChannel.position =
      (List.range rows.length).map position := by
  refine ext_getElem (by simp) fun i _ _ => ?_
  simp only [getElem_map, getElem_mapIdx, getElem_range]

theorem types_mapIdx (rows : List DbChannel) (position : Nat → Int) :
    (rows.mapIdx fun i c => { c with position := position i }).map DbChannel.type =
      rows.map DbChannel.type := by
  refine ext_getElem (by simp) fun i _ _ => ?_
  simp only [getElem_map, getElem_mapIdx]

/-- Renumbering a list of all channels puts them in order if it is grouped, and only then. -/
theorem inOrder_repositioned {l : List DbChannel} (hl : l.Perm t.channels.rows) :
    (t.repositioned (l.map DbChannel.id) fun i => i).InOrder ↔ Grouped (l.map DbChannel.type) := by
  have hmono : ∀ i j : Nat, i < j → (i : Int) < (j : Int) := fun _ _ => Int.ofNat_lt.2
  have hord := ordered_repositioned hl hmono
  constructor
  · intro h
    have hg := h.grouped
    rwa [hord, types_mapIdx] at hg
  · refine fun hg => ⟨?_, ?_⟩
    · rw [← length_ordered, hord, positions_mapIdx, length_mapIdx]
    · rw [hord, types_mapIdx]
      exact hg

theorem inOrder_normalized (t : Tables) : (CommunityDb.normalized t).InOrder :=
  (inOrder_repositioned ((normalizeRows_perm t.ordered [] []).trans t.perm_ordered)).2
    (grouped_normalizeRows t.ordered)

/-- The types of the channels named, in order. -/
def typesOf (t : Tables) (ids : List String) : List ChannelType :=
  (ids.filterMap t.channels.find?).map DbChannel.type

theorem map_id_find? {ids : List String} (h : ids ⊆ t.channels.keys) :
    (ids.filterMap t.channels.find?).map DbChannel.id = ids := by
  induction ids with
  | nil => rfl
  | cons id ids ih =>
    obtain ⟨hid, hids⟩ := cons_subset.1 h
    obtain ⟨c, hc, rfl⟩ := mem_map.1 hid
    rw [filterMap_cons, Table.find?_eq_some.2 ⟨hc, rfl⟩, map_cons, ih hids]

theorem perm_find? {ids : List String} (hn : ids.Nodup) (h : ids ⊆ t.channels.keys)
    (h' : t.channels.keys ⊆ ids) : (ids.filterMap t.channels.find?).Perm t.channels.rows := by
  have hmap := map_id_find? h
  refine (perm_ext_iff_of_nodup (.of_map DbChannel.id (hmap.symm ▸ hn))
    (.of_map DbChannel.id t.channels.nodup)).2 fun c => ?_
  rw [mem_filterMap]
  constructor
  · rintro ⟨id, -, hc⟩
    exact (Table.find?_eq_some.1 hc).1
  · exact fun hc => ⟨c.id, h' (mem_map_of_mem hc), Table.find?_eq_some.2 ⟨hc, rfl⟩⟩

/-- The channel `c` is put at `idx`; those from there on move down. -/
structure Inserted (idx : Nat) (c : DbChannel) (t u : Tables) : Prop where
  le : idx ≤ t.ordered.length
  position : c.position = idx
  rows : u.channels.rows =
    (t.repositioned (t.ordered.map DbChannel.id) (gap idx)).channels.rows ++ [c]

section Inserted

variable {idx : Nat} {c : DbChannel}

theorem Inserted.split (h : Inserted idx c t u) : (t.ordered.take idx).length = idx := by
  rw [length_take, Nat.min_eq_left h.le]

theorem Inserted.ordered (h : Inserted idx c t u) :
    u.ordered = ((t.ordered.take idx).mapIdx fun i b => { b with position := gap idx i }) ++
      c :: (t.ordered.drop idx).mapIdx fun i b => { b with position := gap idx (i + idx) } := by
  have hposition : c.position = (t.ordered.take idx).length := by rw [h.split, h.position]
  have hrows : u.channels.rows = (t.repositioned (t.ordered.map DbChannel.id)
      (gap (t.ordered.take idx).length)).channels.rows ++ [c] := by rw [h.split, h.rows]
  have hord := ordered_of_insert (take_append_drop idx _).symm hposition hrows
  rwa [h.split] at hord

theorem Inserted.length (h : Inserted idx c t u) :
    u.channels.rows.length = t.channels.rows.length + 1 := by
  rw [h.rows, length_append, repositioned, Table.rows_updateWhere, length_map]
  rfl

theorem Inserted.dense (h : Inserted idx c t u) : u.ordered.map DbChannel.position =
    (List.range u.channels.rows.length).map fun i : Nat => (i : Int) := by
  have hlen := length_ordered t
  have hle := h.le
  rw [h.ordered, map_append, map_cons, positions_mapIdx,
    positions_mapIdx _ fun i => gap idx (i + idx), h.split, length_drop, h.position, h.length,
    ← hlen]
  refine ext_getElem (by simp; omega) fun i _ _ => ?_
  rw [getElem_map, getElem_range, getElem_append]
  split
  · rename_i hi
    rw [length_map, length_range] at hi
    rw [getElem_map, getElem_range, gap, if_pos hi]
  · rename_i hi
    rw [length_map, length_range] at hi
    rw [getElem_cons]
    split
    · rename_i h0
      rw [length_map, length_range] at h0
      omega
    · rename_i h0
      simp only [length_map, length_range] at h0
      simp only [getElem_map, getElem_range, length_map, length_range, gap]
      rw [if_neg (by omega)]
      omega

/-- A new channel keeps the order, but for a text channel below a voice channel of its group. -/
theorem Inserted.inOrder (h : Inserted idx c t u) (ht : t.InOrder) {categoryId : String}
    (hi : insertionIndex t.ordered c.type categoryId = some idx)
    (hlast : c.type = .text → ∀ b, (t.ordered.take idx).getLast? = some b → b.type ≠ .voice) :
    u.InOrder := by
  refine ⟨h.dense, ?_⟩
  have hg := ht.grouped
  rw [← take_append_drop idx t.ordered, map_append] at hg
  rw [h.ordered, map_append, map_cons, types_mapIdx,
    types_mapIdx _ fun i => gap idx (i + idx)]
  refine hg.insert (fun htext hvoice => ?_) fun _ hhead => ?_
  · rw [getLast?_map] at hvoice
    obtain ⟨b, hb, hbt⟩ := Option.map_eq_some_iff.1 hvoice
    exact hlast htext b hb hbt
  · rw [head?_map] at hhead
    obtain ⟨b, hb, hbt⟩ := Option.map_eq_some_iff.1 hhead
    rw [category_of_insertionIndex hi hb] at hbt
    cases hbt

theorem Inserted.under (h : Inserted idx c t u) {categoryId id : String}
    (hi : insertionIndex t.ordered c.type categoryId = some idx) (hid : id ≠ c.id) :
    parentIn u.ordered "" id = parentIn t.ordered "" id :=
  parentIn_ordered_of_insert (take_append_drop idx _).symm (by rw [h.split, h.position])
    (insertionIndex_spec hi).2.1 (by rw [h.split, h.rows]) hid

end Inserted

/-! ### A channel taken away -/

def placesWithout (channelId : String) (t : Tables) : List (String × ChannelType × Int) :=
  (places t.ordered).filter fun p => ! decide (p.1 = channelId)

theorem places_deleteChannel {channelId : String}
    (h : deleteChannel channelId t = some t') :
    places t'.ordered = placesWithout channelId t := by
  cases h
  rw [ordered_of_filter (p := fun c => ! decide (c.id = channelId)) (t := t)
    Table.rows_deleteWhere, placesWithout, places, places, filter_map]
  rfl

theorem ids_of_places {id : String} :
    id ∈ (places t.ordered).map Prod.fst ↔ id ∈ t.channels.keys := by
  rw [places, map_map]
  exact ids_ordered

theorem InOrder.dropLast (ht : t.InOrder) {id : String} {c : DbChannel}
    (hlast : t.ordered.getLast? = some c) (hid : c.id = id)
    (hu : places u.ordered = placesWithout id t) : u.InOrder := by
  obtain ⟨l, hl⟩ := getLast?_eq_some_iff.1 hlast
  have hnodup := nodup_ordered t
  rw [hl, map_append, nodup_append] at hnodup
  have hkeep : (places l).filter (fun p => ! decide (p.1 = id)) = places l := by
    refine filter_eq_self.2 fun p hp => ?_
    obtain ⟨b, hb, rfl⟩ := mem_map.1 hp
    have hne : b.id ≠ c.id := hnodup.2.2 _ (mem_map_of_mem hb) _ (.head _)
    simpa [← hid] using hne
  have hplaces : places u.ordered = places l := by
    rw [hu, placesWithout, hl, places, map_append, filter_append]
    rw [show (List.map _ l).filter _ = places l from hkeep]
    simp [hid]
  have hlen : u.channels.rows.length = l.length := length_ordered u ▸ length_of_places hplaces
  refine ⟨?_, ?_⟩
  · have hdense := ht.dense
    rw [hl, map_append, ← length_ordered, hl, length_append, length_singleton,
      range_succ, map_append] at hdense
    rw [map_of_places hplaces fun p => p.2.2, hlen]
    exact (append_inj hdense (by simp)).1
  · rw [map_of_places hplaces fun p => p.2.1]
    have hg := ht.grouped
    rw [hl, map_append] at hg
    exact hg.of_append

theorem last_of_inOrder {channelId : String} (ht : t.InOrder)
    (hid : channelId ∈ t.channels.keys) (hplaces : places u.ordered = placesWithout channelId t)
    (hu : u.InOrder) : ∃ c, t.ordered.getLast? = some c ∧ c.id = channelId := by
  obtain ⟨b, hb, rfl⟩ := mem_map.1 (ids_ordered.2 hid)
  obtain ⟨c, hc⟩ := getLast?_isSome.2 (ne_nil_of_mem hb) |> Option.isSome_iff_exists.1
  refine ⟨c, hc, ?_⟩
  by_contra hne
  obtain ⟨l, hl⟩ := getLast?_eq_some_iff.1 hc
  -- the last channel has the last position
  have hlast : c.position = l.length := by
    have hdense := ht.dense
    rw [hl, map_append, ← length_ordered, hl, length_append, length_singleton,
      range_succ, map_append] at hdense
    exact head_eq_of_cons_eq (append_inj hdense (by simp)).2
  have hmem : (c.id, c.type, c.position) ∈ places u.ordered := by
    rw [hplaces, placesWithout, mem_filter]
    exact ⟨mem_map_of_mem (hl ▸ mem_append_right _ (.head _)), by simpa using hne⟩
  have hposition : c.position ∈ u.ordered.map DbChannel.position := by
    have := mem_map_of_mem (f := fun p : String × ChannelType × Int => p.2.2) hmem
    rwa [places, map_map] at this
  rw [hu.dense, mem_map] at hposition
  obtain ⟨i, hi, hip⟩ := hposition
  have hshort : u.channels.rows.length < t.ordered.length := by
    have hlen := congrArg List.length hplaces
    rw [places, length_map, length_ordered] at hlen
    have hless : ((places t.ordered).filter fun p => ! decide (p.1 = b.id)).length <
        (places t.ordered).length :=
      length_filter_lt_length_iff_exists.2 ⟨_, mem_map_of_mem hb, by simp⟩
    rw [← placesWithout, ← hlen, places, length_map] at hless
    exact hless
  rw [mem_range] at hi
  rw [hl, length_append, length_singleton] at hshort
  omega

end Tables

end Decibell
