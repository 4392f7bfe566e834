import Decibell.Community.Layout

/-!
# Display order after a write

What the writers of channels make of the display order, and of the category above each channel in
it: flags leave the order alone, a deletion drops a row of it, a creation puts one at the insertion
index, and the normal order keeps every channel in its group.
-/

namespace Decibell

open Lib Lib.Conn Tables List

namespace Tables

variable {t t' : Tables}

theorem pairwise_ordered (t : Tables) : t.ordered.Pairwise DbChannel.le :=
  pairwise_insertionSort _ _

theorem ordered_eq {l : List DbChannel} (hp : t.channels.rows.Perm l) (hs : l.Pairwise DbChannel.le) :
    t.ordered = l :=
  insertionSort_eq_of_perm hp hs fun _ ha _ hb => DbChannel.eq_of_le ha hb

theorem ordered_of_map {f : DbChannel → DbChannel}
    (hf : ∀ c, (f c).id = c.id ∧ (f c).position = c.position)
    (h : t'.channels.rows = t.channels.rows.map f) : t'.ordered = t.ordered.map f := by
  refine ordered_eq (h ▸ ((perm_ordered t).map f).symm) (pairwise_map.2 ?_)
  refine (pairwise_ordered t).imp fun {a b} hab => ?_
  rw [DbChannel.le_iff] at hab ⊢
  rwa [(hf a).1, (hf a).2, (hf b).1, (hf b).2]

theorem ordered_of_filter {p : DbChannel → Bool}
    (h : t'.channels.rows = t.channels.rows.filter p) : t'.ordered = t.ordered.filter p :=
  ordered_eq (h ▸ ((perm_ordered t).filter p).symm) ((pairwise_ordered t).filter p)

theorem mem_ordered {c : DbChannel} : c ∈ t.ordered ↔ c ∈ t.channels.rows := (perm_ordered t).mem_iff

theorem nodup_ordered (t : Tables) : (t.ordered.map DbChannel.id).Nodup := nodup_ids t.perm_ordered

theorem ids_ordered {id : String} : id ∈ t.ordered.map DbChannel.id ↔ id ∈ t.channels.keys :=
  ((perm_ordered t).map DbChannel.id).mem_iff

/-- The positions with a gap at `idx`. -/
def gap (idx i : Nat) : Int := if i < idx then i else i + 1

theorem gap_lt (idx : Nat) : ∀ i j, i < j → gap idx i < gap idx j := by
  intro i j hij
  simp only [gap]
  split <;> split <;> omega

theorem ordered_of_insert {l₁ l₂ : List DbChannel} (hl : t.ordered = l₁ ++ l₂) {c : DbChannel}
    (hc : c.position = l₁.length)
    (h : t'.channels.rows =
      (t.repositioned (t.ordered.map DbChannel.id) (gap l₁.length)).channels.rows ++ [c]) :
    t'.ordered = (l₁.mapIdx fun i b => { b with position := gap l₁.length i }) ++
      c :: l₂.mapIdx fun i b => { b with position := gap l₁.length (i + l₁.length) } := by
  have hr := ordered_repositioned t.perm_ordered (gap_lt l₁.length)
  have hs := hr ▸ pairwise_ordered _
  rw [hl, mapIdx_append, pairwise_append] at hs
  refine ordered_eq ?_ (pairwise_append.2 ⟨hs.1, pairwise_cons.2 ⟨?_, hs.2.1⟩, ?_⟩)
  · have hp := perm_ordered (t.repositioned (t.ordered.map DbChannel.id) (gap l₁.length))
    rw [hr, hl, mapIdx_append, ← hl] at hp
    rw [h]
    refine (hp.symm.append_right [c]).trans ?_
    rw [append_assoc]
    exact (perm_append_comm : (_ ++ [c]).Perm ([c] ++ _)).append_left _
  · intro b hb
    obtain ⟨i, hi, rfl⟩ := mem_mapIdx.1 hb
    refine .inl ?_
    simp only [hc, gap]
    split <;> omega
  · intro b hb d hd
    obtain ⟨i, hi, rfl⟩ := mem_mapIdx.1 hb
    rcases mem_cons.1 hd with rfl | hd
    · refine .inl ?_
      simp only [hc, gap, if_pos hi]
      omega
    · exact hs.2.2 _ hb d hd

end Tables

namespace ChannelLayout

variable {rows as bs : List DbChannel} {current id parent : String}

/-- The category above what comes after some rows. -/
def lastCategory : List DbChannel → String → String
  | [], current => current
  | c :: cs, current => lastCategory cs (if c.type = .category then c.id else current)

theorem lastCategory_append (as bs : List DbChannel) (current : String) :
    lastCategory (as ++ bs) current = lastCategory bs (lastCategory as current) := by
  induction as generalizing current with
  | nil => rfl
  | cons a as ih => exact ih _

theorem lastCategory_of_channels (h : ∀ c ∈ rows, c.type ≠ .category) (current : String) :
    lastCategory rows current = current := by
  induction rows with
  | nil => rfl
  | cons c cs ih =>
    rw [lastCategory, if_neg (h c (.head cs))]
    exact ih fun b hb => h b (.tail c hb)

theorem parentIn_append (as bs : List DbChannel) (current id : String) :
    parentIn (as ++ bs) current id =
      (parentIn as current id).or (parentIn bs (lastCategory as current) id) := by
  induction as generalizing current with
  | nil => rfl
  | cons a as ih =>
    rw [cons_append, parentIn, parentIn]
    split
    · rfl
    · exact ih _

theorem parentIn_of_channels (h : ∀ c ∈ rows, c.type ≠ .category) (current id : String) :
    parentIn rows current id = if id ∈ rows.map DbChannel.id then some current else none := by
  induction rows with
  | nil => rfl
  | cons c cs ih =>
    rw [parentIn, if_neg (h c (.head cs)), if_neg (h c (.head cs)), ih fun b hb => h b (.tail c hb)]
    by_cases hc : c.id = id
    · simp [hc]
    · simp [hc, Ne.symm hc]

/-- What the category above a channel depends on: ids and types. -/
def outline (rows : List DbChannel) : List (String × ChannelType) :=
  rows.map fun c => (c.id, c.type)

theorem parentIn_congr {rows' : List DbChannel} (h : outline rows' = outline rows)
    (current id : String) : parentIn rows' current id = parentIn rows current id := by
  induction rows generalizing rows' current with
  | nil => rw [map_eq_nil_iff.1 h]
  | cons c cs ih =>
    obtain ⟨b, bs, rfl, hb, hbs⟩ := map_eq_cons_iff.1 h
    obtain ⟨hid, ht⟩ := Prod.mk.inj hb
    simp only [parentIn, hid, ht, ih hbs]

theorem lastCategory_congr {rows' : List DbChannel} (h : outline rows' = outline rows)
    (current : String) : lastCategory rows' current = lastCategory rows current := by
  induction rows generalizing rows' current with
  | nil => rw [map_eq_nil_iff.1 h]
  | cons c cs ih =>
    obtain ⟨b, bs, rfl, hb, hbs⟩ := map_eq_cons_iff.1 h
    obtain ⟨hid, ht⟩ := Prod.mk.inj hb
    simp only [lastCategory, hid, ht, ih hbs]

theorem outline_map {f : DbChannel → DbChannel} (hf : ∀ c, (f c).id = c.id ∧ (f c).type = c.type)
    (rows : List DbChannel) : outline (rows.map f) = outline rows := by
  rw [outline, map_map]
  exact map_congr_left fun c _ => Prod.ext (hf c).1 (hf c).2

theorem outline_mapIdx (rows : List DbChannel) (position : Nat → Int) :
    outline (rows.mapIdx fun i c => { c with position := position i }) = outline rows := by
  refine ext_getElem (by simp [outline]) fun i hi hj => ?_
  simp only [outline, getElem_map, getElem_mapIdx]

/-- What a channel follows it follows among other rows with both, and its category. -/
theorem Follows.mono {rows' : List DbChannel} (h : Follows rows id parent)
    (hu : parentIn rows' "" id = some parent)
    (hs : ∀ c ∈ rows, c.id = id → c.permSynced = true → ∃ c' ∈ rows', c'.id = id ∧ c'.permSynced = true)
    (hk : ∀ k ∈ rows, k.id = parent → k.type = .category → k.categorySync = true →
      ∃ k' ∈ rows', k'.id = parent ∧ k'.type = .category ∧ k'.categorySync = true) :
    Follows rows' id parent := by
  obtain ⟨c, hc, hcid, hcs⟩ := h.synced
  obtain ⟨k, hkr, hkid, hkt, hks⟩ := h.syncs
  exact ⟨hu, h.named, hs c hc hcid hcs, hk k hkr hkid hkt hks⟩

/-! ### The normal order of the groups -/

theorem normalizeRows_perm (rows texts voices : List DbChannel) :
    (normalizeRows rows texts voices).Perm (texts ++ voices ++ rows) := by
  induction rows generalizing texts voices with
  | nil => rw [normalizeRows, append_nil]
  | cons c cs ih =>
    rw [normalizeRows]
    split
    · refine (ih _ _).trans ?_
      simp only [append_assoc, singleton_append]
      exact (perm_middle.symm).append_left texts |>.trans (by simp)
    · refine (ih _ _).trans ?_
      simp
    · exact ((ih [] []).cons c).append_left _

theorem parentIn_normalizeRows {texts voices : List DbChannel} (ht : ∀ c ∈ texts, c.type ≠ .category)
    (hv : ∀ c ∈ voices, c.type ≠ .category) (rows : List DbChannel) (current id : String) :
    parentIn (normalizeRows rows texts voices) current id =
      parentIn (texts ++ voices ++ rows) current id := by
  have htv : ∀ {texts voices : List DbChannel}, (∀ c ∈ texts, c.type ≠ .category) →
      (∀ c ∈ voices, c.type ≠ .category) → ∀ c ∈ texts ++ voices, c.type ≠ .category :=
    fun ht hv c hc => (mem_append.1 hc).elim (ht c) (hv c)
  induction rows generalizing texts voices current with
  | nil => rw [normalizeRows, append_nil]
  | cons c cs ih =>
    -- a channel of the group is in it, whichever half it is read into
    have hmove : ∀ {texts' voices' : List DbChannel}, c.type ≠ .category →
        (∀ c ∈ texts', c.type ≠ .category) → (∀ c ∈ voices', c.type ≠ .category) →
        ((texts' ++ voices').map DbChannel.id).Perm ((texts ++ voices ++ [c]).map DbChannel.id) →
        parentIn (texts' ++ voices' ++ cs) current id =
          parentIn (texts ++ voices ++ c :: cs) current id := by
      intro texts' voices' hc ht' hv' hp
      have hcs : ∀ b ∈ [c], b.type ≠ .category := by simpa using hc
      have htvc := htv (htv ht hv) hcs
      rw [← singleton_append, ← append_assoc, parentIn_append (texts' ++ voices'),
        parentIn_append (texts ++ voices ++ [c]), parentIn_of_channels (htv ht' hv'),
        parentIn_of_channels htvc, lastCategory_of_channels (htv ht' hv'),
        lastCategory_of_channels htvc]
      simp only [hp.mem_iff]
    rw [normalizeRows]
    split
    · rename_i hc
      have hc : c.type ≠ .category := by simp [hc]
      have hcs : ∀ b ∈ [c], b.type ≠ .category := by simpa using hc
      have ht' := htv ht hcs
      rw [ih ht' hv]
      refine hmove hc ht' hv ?_
      simp only [map_append, append_assoc]
      exact perm_append_comm.append_left _
    · rename_i hc
      have hc : c.type ≠ .category := by simp [hc]
      have hcs : ∀ b ∈ [c], b.type ≠ .category := by simpa using hc
      have hv' := htv hv hcs
      rw [ih ht hv']
      exact hmove hc ht hv' (by simp)
    · rw [parentIn_append, parentIn_append (texts ++ voices) (c :: cs), parentIn, parentIn,
        ih (by simp) (by simp)]
      rfl

theorem parentIn_normalized (rows : List DbChannel) (current id : String) :
    parentIn (normalizeRows rows [] []) current id = parentIn rows current id :=
  parentIn_normalizeRows (by simp) (by simp) rows current id

/-! ### A new channel -/

theorem not_category_of_take {c : DbChannel}
    (h : c ∈ rows.take (rows.findIdx (·.type = .category))) : c.type ≠ .category := by
  obtain ⟨i, hi, rfl⟩ := mem_iff_getElem.1 h
  rw [length_take] at hi
  rw [getElem_take]
  simpa using not_of_lt_findIdx (p := fun c : DbChannel => c.type = .category)
    (lt_of_lt_of_le hi (min_le_left _ _))

theorem insertionIndex_spec {type : ChannelType} {categoryId : String} {idx : Nat}
    (h : insertionIndex rows type categoryId = some idx) :
    idx ≤ rows.length ∧ (type ≠ .category ∨ rows.drop idx = []) ∧
      (type ≠ .category → lastCategory (rows.take idx) "" = categoryId) := by
  simp only [insertionIndex] at h
  split at h
  · cases h
    exact ⟨le_refl _, .inr (drop_length ..), fun h => absurd ‹_› h⟩
  split at h
  · cases h
    refine ⟨findIdx_le_length, .inl ‹_›, fun _ => ?_⟩
    rw [lastCategory_of_channels fun c => not_category_of_take]
    exact Eq.symm ‹_›
  split at h
  · -- the rows up to the header, and those of its block
    rename_i hlt
    cases h
    have hrow := findIdx_getElem (w := hlt)
    simp only [Bool.and_eq_true, decide_eq_true_eq] at hrow
    generalize rows.findIdx (fun c => c.id = categoryId && c.type = .category) = header at *
    refine ⟨?_, .inl ‹_›, fun _ => ?_⟩
    · have : (rows.drop (header + 1)).findIdx (·.type = .category) ≤ (rows.drop (header + 1)).length :=
        findIdx_le_length
      rw [length_drop] at this
      omega
    · rw [take_add, lastCategory_append, lastCategory_of_channels fun c => not_category_of_take,
        take_add_one, lastCategory_append, getElem?_eq_getElem hlt]
      simp only [Option.toList_some, lastCategory, hrow.1, hrow.2, if_true]
  · cases h

theorem category_of_insertionIndex {type : ChannelType} {categoryId : String} {idx : Nat}
    (h : insertionIndex rows type categoryId = some idx) {b : DbChannel}
    (hb : (rows.drop idx).head? = some b) : b.type = .category := by
  have hfind : ∀ l : List DbChannel, (l.drop (l.findIdx (·.type = .category))).head? = some b →
      b.type = .category := by
    intro l hl
    rw [head?_drop] at hl
    obtain ⟨hlt, hget⟩ := List.getElem?_eq_some_iff.1 hl
    have hrow := findIdx_getElem (w := hlt)
    rw [hget] at hrow
    exact of_decide_eq_true hrow
  simp only [insertionIndex] at h
  split at h
  · cases h
    rw [drop_length] at hb
    cases hb
  split at h
  · cases h
    exact hfind rows hb
  split at h
  · cases h
    rw [← drop_drop] at hb
    exact hfind _ hb
  · cases h

theorem parentIn_insert {c : DbChannel} (hc : c.type ≠ .category ∨ bs = []) (hid : id ≠ c.id)
    (current : String) : parentIn (as ++ c :: bs) current id = parentIn (as ++ bs) current id := by
  rw [parentIn_append, parentIn_append, parentIn, if_neg (Ne.symm hid)]
  rcases hc with hc | rfl
  · rw [if_neg hc]
  · rfl

theorem parentIn_ordered_of_insert {t t' : Tables} {l₁ l₂ : List DbChannel} {c : DbChannel}
    (hl : t.ordered = l₁ ++ l₂) (hc : c.position = l₁.length) (hlast : c.type ≠ .category ∨ l₂ = [])
    (hrows : t'.channels.rows =
      (t.repositioned (t.ordered.map DbChannel.id) (gap l₁.length)).channels.rows ++ [c])
    (hid : id ≠ c.id) : parentIn t'.ordered "" id = parentIn t.ordered "" id := by
  rw [ordered_of_insert hl hc hrows, parentIn_insert (hlast.imp_right fun h => by rw [h]; rfl) hid, hl,
    parentIn_append, parentIn_append, parentIn_congr (outline_mapIdx _ _),
    lastCategory_congr (outline_mapIdx _ _),
    parentIn_congr (outline_mapIdx l₂ fun i => gap l₁.length (i + l₁.length))]

theorem parentIn_inserted {c : DbChannel} (hc : c.id ∉ as.map DbChannel.id) (ht : c.type ≠ .category)
    (current : String) :
    parentIn (as ++ c :: bs) current c.id = some (lastCategory as current) := by
  rw [parentIn_append, parentIn_eq_none.2 hc, parentIn, if_pos rfl, if_neg ht]
  rfl

/-! ### A channel deleted -/

theorem parentIn_filter {k current' : String} (hcur : current' = current ∨ current = k)
    (hid : id ≠ k) (hp : parent ≠ k) (h : parentIn rows current id = some parent) :
    parentIn (rows.filter fun c => ! decide (c.id = k)) current' id = some parent := by
  induction rows generalizing current current' with
  | nil => cases h
  | cons c cs ih =>
    rw [parentIn] at h
    by_cases hck : c.id = k
    · -- the row itself: what comes after it is now under the category before
      rw [filter_cons_of_neg (by simpa using hck)]
      rw [if_neg fun h' => hid (h'.symm.trans hck)] at h
      refine ih ?_ h
      split
      · exact .inr hck
      · exact hcur
    · rw [filter_cons_of_pos (by simpa using hck), parentIn]
      split at h
      · rw [if_pos ‹_›]
        split at h
        · rwa [if_pos ‹_›]
        · rw [if_neg ‹_›]
          have hpc : current = parent := Option.some.inj h
          exact hpc ▸ congrArg some (hcur.resolve_right fun h' => hp (hpc.symm.trans h'))
      · rw [if_neg ‹_›]
        refine ih ?_ h
        split
        · exact .inl rfl
        · exact hcur

end ChannelLayout
end Decibell
