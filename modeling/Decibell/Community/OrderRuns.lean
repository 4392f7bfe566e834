import Decibell.Community.ChannelOrder
import Decibell.Community.ReorderFaults
import Decibell.Community.RoleState

/-!
# Runs that move channels

A creation, a reorder and a deletion are each committed first. Then a transaction of its own puts
the channels into normal order, and whether it does is not looked at.

* `facing_createChannel`, `facing_reorderChannels_places` and `deleteChannel_inOrder` say what each
  leaves, whatever fails.
-/

namespace Decibell

open Lib Lib.Conn Tables ChannelLayout List

namespace CommunityDb

variable {t : Tables} {os : List Outcome} {α : Type}

/-! ## Statements that move no channel -/

/-- A property of the tables is one of the channels' places. -/
def OfPlaces (P : List (String × ChannelType × Int) → Prop) : Memory → Tables → Prop :=
  fun _ t => P (places t.ordered)

/-- The statement moves no channel. -/
def MovesNone (stmt : Stmt) : Prop :=
  ∀ t t', stmt t = some t' → places t'.ordered = places t.ordered

theorem MovesNone.preserves {P : List (String × ChannelType × Int) → Prop} {stmt : Stmt}
    (h : MovesNone stmt) (m : Memory) : Preserves (OfPlaces P m) stmt := by
  intro t t' ht hs
  rw [OfPlaces, h t t' hs]
  exact ht

theorem movesNone_of_channels {stmt : Stmt}
    (h : ∀ t t', stmt t = some t' → t'.channels = t.channels) : MovesNone stmt := fun t t' hs => by
  rw [Tables.ordered, h t t' hs, Tables.ordered]

theorem movesNone_setPermSynced (id : String) (synced : Bool) :
    MovesNone (setPermSynced id synced) := by
  intro t t' hs
  cases hs
  rw [ordered_of_map (f := fun c => if c.id = id then { c with permSynced := synced } else c)
    (fun c => ?_) (t := t) ?_]
  · rw [places, map_map]
    refine map_congr_left fun c _ => ?_
    rw [Function.comp_apply]
    split <;> rfl
  · simp only [Table.rows_updateWhere, decide_eq_true_eq]
  · split <;> exact ⟨rfl, rfl⟩

theorem movesNone_writeOwnOverwrites {id : String} {rows : List DbOverwrite} {synced : Bool}
    {stmt : Stmt} (h : stmt ∈ writeOwnOverwrites id rows synced) : MovesNone stmt := by
  rw [writeOwnOverwrites, cons_append, mem_cons, mem_append, mem_map,
    mem_singleton] at h
  rcases h with rfl | ⟨ow, -, rfl⟩ | rfl
  · exact movesNone_of_channels fun t t' hs => by cases hs; rfl
  · refine movesNone_of_channels fun t t' hs => ?_
    obtain ⟨overwrites, -, rfl⟩ := Option.map_eq_some_iff.1 hs
    rfl
  · exact movesNone_setPermSynced id synced

section OfPlaces

variable {P : List (String × ChannelType × Int) → Prop}

theorem stable_inv : Stable (Inv (OfPlaces P)) := fun d d' hc _ _ hd => by
  rw [Inv, hc]
  exact hd

theorem stable_quiet : Stable (Quiet (OfPlaces P)) := fun d d' hc _ _ hd =>
  (stable_inv d d' hc ‹_› ‹_› hd.inv).quiet ((congrArg Conn.saved hc).trans hd.idle)

theorem keeps_places_keepOverwrites {rows : String → DbM (List DbOverwrite)}
    (hrows : ∀ k, Keeps (Inv (OfPlaces P)) (rows k)) (channels : List (String × String)) :
    Keeps (Inv (OfPlaces P)) (keepOverwrites rows channels) :=
  .allM fun _ _ => (hrows _).bind fun _ =>
    (keeps_execAll fun _ hs m => (movesNone_writeOwnOverwrites hs).preserves m).bind fun _ =>
      (stable_inv.keeps_eraseOverwritesCache _).bind fun _ => .pure

theorem keeps_places_enforceSyncInvariant : Keeps (Quiet (OfPlaces P)) enforceSyncInvariant := by
  refine stable_quiet.keeps_getLayout.bind fun layout => .ite (triple_begin ?_ Keeps.pure) .pure
  refine Keeps.seq (keeps_execAll fun stmt hs m => ?_) fun ok =>
    triple_finish.bind fun _ => stable_quiet.keeps_invalidateChannelLayout
  obtain ⟨id, -, rfl⟩ := mem_map.1 hs
  exact (movesNone_setPermSynced id false).preserves m

end OfPlaces

/-! ## Creations -/

def newChannelId (rawName : Bytes) (t : Tables) : String :=
  let base := slugifyChannelName (clampUtf8 rawName maxChannelNameBytes)
  t.freeChannelId base 998 2 base

/-- A channel is created at `idx`, and the creation is committed. -/
def CreatesAt (rawName : Bytes) (type : ChannelType) (categoryId : String) (t : Tables)
    (os : List Outcome) (idx : Nat) : Prop :=
  (clampUtf8 rawName maxChannelNameBytes).isEmpty = false ∧
    newChannelId rawName t ∉ t.channels.keys ∧
      insertionIndex t.ordered type categoryId = some idx ∧
        nextOf os = .ok ∧ committed (t.channels.rows.length + 1) os.tail

/-- A creation leaves the tables, perhaps put in order; or, committed, those with the channel, in
    order if that is committed too. -/
def Created (rawName : Bytes) (type : ChannelType) (categoryId : String) (t : Tables)
    (os : List Outcome) (t' : Tables) : Prop :=
  let n := t.channels.rows.length
  ((∀ idx, ¬CreatesAt rawName type categoryId t os idx) ∧ (t' = t ∨ t' = normalized t)) ∨
    ∃ idx c u, CreatesAt rawName type categoryId t os idx ∧ c.type = type ∧
      c.id = newChannelId rawName t ∧ Inserted idx c t u ∧
        t' = if Normalizes (n + 1) (afterwards (n + 1) os.tail) then normalized u else u

theorem facing_thenNormalize {w : Tables} {r : α} : Triple (Facing Whatever ⟨w, none, os⟩) (do
      normalizeChannelOrder
      invalidateChannelLayout
      return r) fun _ d => d.conn.Idle ∧
        d.tables = if Normalizes w.channels.rows.length os then normalized w else w := by
  refine (facing_normalize fun _ _ => trivial).bind fun _ => ?_
  refine facing_invalidateLayout (N := Whatever) (fun _ _ => trivial) (.pure fun d hd => ?_)
  exact ⟨congrArg Conn.saved hd.conn, hd.tables⟩

theorem facing_insertCreated {rawName : Bytes} {c : DbChannel} {idx : Nat} {categoryId : String}
    (hname : (clampUtf8 rawName maxChannelNameBytes).isEmpty = false)
    (hi : insertionIndex t.ordered c.type categoryId = some idx) (hpos : c.position = idx)
    (hid : c.id = newChannelId rawName t) (ho : nextOf os = .ok)
    (hlast : (answers t.channels.rows.length os.tail).last = .ok) :
    Triple (Facing Whatever ⟨t.repositioned (t.ordered.map DbChannel.id) (gap idx), some t,
        (answers t.channels.rows.length os.tail).left⟩) (do
      let ok ← sql (execIf true (insertChannel c))
      sql (finish ok)
      if ok then
        normalizeChannelOrder
        invalidateChannelLayout
        return some c
      else return none)
      fun _ d => d.conn.Idle ∧ Created rawName c.type categoryId t os d.tables := by
  have hsucc := answers_succ hlast
  have hsame : ∀ {os'}, (∀ idx, ¬CreatesAt rawName c.type categoryId t os idx) →
      ∀ d, Facing Whatever ⟨t, none, os'⟩ d →
        d.conn.Idle ∧ Created rawName c.type categoryId t os d.tables := fun hno d hd =>
    ⟨congrArg Conn.saved hd.conn, .inl ⟨hno, .inl hd.tables⟩⟩
  have hkeys := (reordered_repositioned t (t.ordered.map DbChannel.id) (gap idx)).keys
  generalize (answers t.channels.rows.length os.tail).left = l at *
  generalize hv : t.repositioned (t.ordered.map DbChannel.id) (gap idx) = v at *
  by_cases hnew : c.id ∈ t.channels.keys
  · -- the id is taken
    have hnone : insertChannel c v = none := by
      simp [insertChannel, Table.insert, hkeys, hnew]
    exact (facing_sql (exec_of_none hnone)).bind_eq ((facing_sql (run_finish_false _)).bind_eq
      (.pure (hsame fun _ h => h.2.1 (hid ▸ hnew))))
  obtain ⟨u, hins, hrows⟩ : ∃ u, insertChannel c v = some u ∧
      u.channels.rows = v.channels.rows ++ [c] := by
    rw [insertChannel, Table.insert_eq_some (hkeys ▸ hnew)]
    exact ⟨_, rfl, rfl⟩
  by_cases hok : nextOf l = .ok
  swap
  · rw [if_neg hok] at hsucc
    refine (facing_sql (exec_of_head_not_ok hok)).bind_eq ((facing_sql (run_finish_false _)).bind_eq
      (.pure (hsame fun _ h => hok ?_)))
    have hcommitted := h.2.2.2.2.1
    rwa [hsucc] at hcommitted
  refine (facing_sql (exec_of_head_ok hins hok)).bind_eq ((facing_sql run_finish_true).bind_eq ?_)
  rw [if_pos hok] at hsucc
  rw [if_pos rfl]
  refine facing_thenNormalize.conseq (fun _ h => h) fun _ d hd => ⟨hd.1, ?_⟩
  rw [hd.2]
  by_cases hcommit : nextOf l.tail = .ok
  · have hinserted : Inserted idx c t u :=
      ⟨(insertionIndex_spec hi).1, hpos, by rw [hrows, hv]⟩
    have hcommitted : committed (t.channels.rows.length + 1) os.tail := by
      rw [committed, hsucc]
      exact ⟨rfl, hcommit⟩
    have hafter : afterwards (t.channels.rows.length + 1) os.tail = l.tail.tail := by
      rw [afterwards, hsucc, if_pos rfl]
    refine .inr ⟨idx, c, u, ⟨hname, hid ▸ hnew, hi, ho, hcommitted⟩, rfl, hid, hinserted, ?_⟩
    rw [if_pos hcommit, hinserted.length, hafter]
  · rw [if_neg hcommit]
    refine .inl ⟨fun _ h => hcommit ?_, ?_⟩
    · have hcommitted := h.2.2.2.2.2
      rwa [hsucc] at hcommitted
    · split
      · exact .inr rfl
      · exact .inl rfl

theorem facing_createChannel (rawName : Bytes) (type : ChannelType) (voiceBitrateKbps : Int)
    (categoryId : String) (encrypted : Bool) (t : Tables) (os : List Outcome) :
    Triple (Facing Whatever ⟨t, none, os⟩)
      (createChannel rawName type voiceBitrateKbps categoryId encrypted)
      fun _ d => d.conn.Idle ∧ Created rawName type categoryId t os d.tables := by
  have hsame : ∀ {os'}, (∀ idx, ¬CreatesAt rawName type categoryId t os idx) →
      ∀ d, Facing Whatever ⟨t, none, os'⟩ d →
        d.conn.Idle ∧ Created rawName type categoryId t os d.tables := fun hno d hd =>
    ⟨congrArg Conn.saved hd.conn, .inl ⟨hno, .inl hd.tables⟩⟩
  refine .get_bind fun d hd => ?_
  rw [hd.tables]
  refine .ite (fun hname => .pure (hsame fun _ h => ?_)) fun hname => ?_
  · exact Bool.noConfusion (h.1.symm.trans hname)
  cases hi : insertionIndex t.ordered type categoryId with
  | none =>
    refine .pure (hsame fun _ h => ?_)
    cases hi.symm.trans h.2.2.1
  | some idx =>
  refine facing_begin (fun ho => ?_) fun ho => .pure (hsame fun _ h => ho h.2.2.2.1)
  have hrenumber : applyAll (renumber (t.ordered.map DbChannel.id) (gap idx)) t = some _ :=
    applyAll_renumber t.nodup_ordered (gap idx) t
  have hlen : (renumber (t.ordered.map DbChannel.id) (gap idx)).length =
      t.channels.rows.length := by
    rw [length_renumber, length_map, length_ordered]
  have hlayout : ∀ {c : Conn Tables}, Keeps (Facing Whatever c) getLayout := fun {c} =>
    Stable.keeps_getLayout fun _ _ hc _ _ hd => ⟨trivial, hc.trans hd.conn⟩
  have hrun := run_execAll hrenumber (some t) os.tail
  rw [hlen] at hrun
  rcases hrun with ⟨hlast, hrun⟩ | ⟨hlast, v, -, hrun⟩
  · refine (facing_sql hrun).bind_eq (hlayout.seq fun layout => ?_)
    exact facing_insertCreated (Bool.eq_false_iff.2 hname) hi rfl rfl ho hlast
  · -- a position could not be written: what follows is undone
    refine (facing_sql hrun).bind_eq (hlayout.seq fun layout => ?_)
    refine (facing_sql (a := false) rfl).bind_eq ((facing_sql (run_finish_false _)).bind_eq
      (.pure (hsame fun _ h => hlast ?_)))
    have hcommitted := h.2.2.2.2.1
    rw [answers_add] at hcommitted
    by_contra hno
    rw [if_neg hno] at hcommitted
    exact hno hcommitted

/-- A committed creation keeps the order: a text channel below a voice channel is put in its place.
    -/
def CreatesInOrder (rawName : Bytes) (type : ChannelType) (categoryId : String) (t : Tables)
    (os : List Outcome) : Prop :=
  ∀ idx, CreatesAt rawName type categoryId t os idx → type = .text →
    (∃ b, (t.ordered.take idx).getLast? = some b ∧ b.type = .voice) →
      let n := t.channels.rows.length
      Normalizes (n + 1) (afterwards (n + 1) os.tail)

theorem Created.inOrder_iff {rawName : Bytes} {type : ChannelType} {categoryId : String}
    {t' : Tables} (h : Created rawName type categoryId t os t') (ht : t.InOrder) :
    t'.InOrder ↔ CreatesInOrder rawName type categoryId t os := by
  rcases h with ⟨hno, rfl | rfl⟩ | ⟨idx, c, u, hplaces, hc, -, hu, rfl⟩
  · exact iff_of_true ht fun idx h => absurd h (hno idx)
  · exact iff_of_true (inOrder_normalized t) fun idx h => absurd h (hno idx)
  have hidx : ∀ {k}, CreatesAt rawName type categoryId t os k → k = idx := fun h =>
    Option.some.inj (h.2.2.1.symm.trans hplaces.2.2.1)
  split
  · rename_i hnormal
    refine iff_of_true (inOrder_normalized u) fun k hk _ _ => hnormal
  · rename_i hnormal
    constructor
    · -- a text channel right below a voice channel is not in order
      rintro hord k hk htype ⟨b, hb, hvoice⟩
      rw [hidx hk] at hb
      obtain ⟨l, hl⟩ := getLast?_eq_some_iff.1 hb
      refine absurd (hord.grouped (l.map DbChannel.type) []
        ((t.ordered.drop idx).map DbChannel.type) ?_) not_mem_nil
      rw [hu.ordered, map_append, map_cons, types_mapIdx,
        types_mapIdx _ fun i => gap idx (i + idx), hl, map_append, map_singleton, hvoice,
        hc, htype, append_assoc]
      rfl
    · intro hkeeps
      refine hu.inOrder ht (hc ▸ hplaces.2.2.1) fun htext b hb hvoice => ?_
      exact hnormal (hkeeps idx hplaces (hc ▸ htext) ⟨b, hb, hvoice⟩)

/-- Whatever becomes of a creation, the others stay under their categories. -/
theorem Created.under {rawName : Bytes} {type : ChannelType} {categoryId : String} {t' : Tables}
    (h : Created rawName type categoryId t os t') {id : String} (hid : id ∈ t.channels.keys) :
    parentIn t'.ordered "" id = parentIn t.ordered "" id := by
  rcases h with ⟨-, rfl | rfl⟩ | ⟨idx, c, u, hplaces, rfl, hc, hu, rfl⟩
  · rfl
  · exact (sameLayout_normalized t).under id
  · have hne : id ≠ c.id := fun h => hplaces.2.1 (hc ▸ h ▸ hid)
    have hunder := hu.under hplaces.2.2.1 hne
    split
    · exact ((sameLayout_normalized u).under id).trans hunder
    · exact hunder

/-! ## Reorders -/

/-- A committed reorder is grouped, or put in groups. -/
def ReordersInOrder (orderedIds : List String) (t : Tables) (os : List Outcome) : Prop :=
  Repositions orderedIds t os → Grouped (t.typesOf orderedIds) ∨
    Normalizes t.channels.rows.length (afterwards orderedIds.length os.tail)

/-- What a reorder leaves, but for the rows it copies. -/
def Reorders (orderedIds : List String) (t : Tables) (os : List Outcome) (u : Tables) : Prop :=
  ¬Repositions orderedIds t os ∧ (u = t ∨ u = normalized t) ∨
    Repositions orderedIds t os ∧
      u = if Normalizes t.channels.rows.length (afterwards orderedIds.length os.tail) then
        normalized (moveOnly orderedIds t) else moveOnly orderedIds t

theorem Reorders.inOrder_iff {orderedIds : List String} {u : Tables}
    (h : Reorders orderedIds t os u) (ht : t.InOrder) :
    u.InOrder ↔ ReordersInOrder orderedIds t os := by
  rcases h with ⟨hno, rfl | rfl⟩ | ⟨hr, rfl⟩
  · exact iff_of_true ht fun h => absurd h hno
  · exact iff_of_true (inOrder_normalized t) fun h => absurd h hno
  split
  · rename_i hnormal
    exact iff_of_true (inOrder_normalized _) fun _ => .inr hnormal
  · rename_i hnormal
    obtain ⟨hn, hsub, hsup⟩ := hr.1
    have hiff := inOrder_repositioned (perm_find? hn hsub hsup)
    rw [map_id_find? hsub] at hiff
    exact hiff.trans ⟨fun hg _ => .inl hg, fun h => (h hr).resolve_right hnormal⟩

theorem facing_endReorder_places {w : Tables} {os : List Outcome}
    {layout : ChannelLayout → List (String × String)} :
    Triple (Facing Whatever ⟨w, none, os⟩) (do
      rebuildChannelLayout
      let moved := layout (← getLayout)
      if moved ≠ [] then
        if ← sql begin then
          let kept ← keepOverwrites overwrites moved
          sql (finish kept)
          invalidateChannelLayout
      enforceSyncInvariant
      return true) fun _ d => d.conn.Idle ∧ places d.tables.ordered = places w.ordered := by
  let P : List (String × ChannelType × Int) → Prop := (· = places w.ordered)
  have hend : Keeps (Quiet (OfPlaces P)) (do enforceSyncInvariant; return true) :=
    keeps_places_enforceSyncInvariant.bind fun _ => .pure
  refine Triple.conseq (P := Quiet (OfPlaces P)) (Q := fun _ => Quiet (OfPlaces P)) ?_
    (fun d hd =>
      ⟨congrArg (fun t : Tables => places t.ordered) hd.tables, congrArg Conn.saved hd.conn⟩)
    fun _ d hd => ⟨hd.idle, hd.rel⟩
  refine stable_quiet.keeps_rebuildChannelLayout.bind fun _ => stable_quiet.keeps_getLayout.bind
    fun _ => .ite (triple_begin ?_ hend) hend
  exact (keeps_places_keepOverwrites stable_inv.keeps_overwrites _).seq fun kept =>
    triple_finish.bind fun _ => stable_quiet.keeps_invalidateChannelLayout.bind fun _ => hend

theorem facing_reorderChannels_places (orderedIds : List String) (t : Tables) (os : List Outcome) :
    Triple (Facing Whatever ⟨t, none, os⟩) (reorderChannels orderedIds) fun _ d => d.conn.Idle ∧
      ∃ u, Reorders orderedIds t os u ∧ places d.tables.ordered = places u.ordered := by
  have hsame : ∀ {os'}, ¬Repositions orderedIds t os → ∀ d, Facing Whatever ⟨t, none, os'⟩ d →
      d.conn.Idle ∧ ∃ u, Reorders orderedIds t os u ∧ places d.tables.ordered = places u.ordered :=
    fun hno d hd => ⟨congrArg Conn.saved hd.conn, t, .inl ⟨hno, .inl rfl⟩, by rw [hd.tables]⟩
  refine .get_bind fun d hd => ?_
  rw [hd.tables]
  have hlayout : Keeps (Facing Whatever ⟨t, none, os⟩) getLayout :=
    Stable.keeps_getLayout fun _ _ hc _ _ hd => ⟨trivial, hc.trans hd.conn⟩
  refine .ite (fun hids => hlayout.seq fun layout => ?_) fun hids => .pure (hsame fun h => hids h.1)
  refine facing_begin (fun ho => ?_) fun ho => .pure (hsame fun h => ho h.2.1)
  refine facing_transaction (applyAll_renumber hids.1 _ t)
    (facing_invalidateLayout (N := Whatever) (fun _ _ => trivial) ?_)
  rw [length_renumber]
  have hiff : Repositions orderedIds t os ↔ committed orderedIds.length os.tail :=
    ⟨fun h => h.2.2, fun h => ⟨hids, ho, h⟩⟩
  refine .ite (fun _ => ?_) fun hlast => .pure fun d hd => ?_
  swap
  · -- a position could not be written
    have hno : ¬committed orderedIds.length os.tail := fun h => hlast (decide_eq_true h.1)
    rw [ended, if_neg hno] at hd
    exact hsame (fun h => hno (hiff.1 h)) d hd
  refine (facing_normalize fun _ _ => trivial).bind fun _ => ?_
  refine facing_endReorder_places.conseq (fun _ h => h) fun _ d hd => ⟨hd.1, _, ?_, hd.2⟩
  by_cases hc : committed orderedIds.length os.tail
  · have hlen : (moveOnly orderedIds t).channels.rows.length = t.channels.rows.length := by
      rw [moveOnly, repositioned, Table.rows_updateWhere, length_map]
    refine .inr ⟨hiff.2 hc, ?_⟩
    simp only [if_pos hc, moveOnly] at hlen ⊢
    rw [hlen]
  · refine .inl ⟨fun h => hc (hiff.1 h), ?_⟩
    simp only [if_neg hc]
    split
    · exact .inr rfl
    · exact .inl rfl

/-! ## Deletions -/

/-- A deletion, up to the normal order. -/
def deleteRows (channelId : String) : DbM (Option WipeChannelResult) := do
  let t := (← get).tables
  if ! t.channels.keys.contains channelId then return none
  else
    let layout ← getLayout
    let orphans := layout.followers channelId
    let categoryRows ← overwritesIf (orphans ≠ []) channelId
    let attachments := t.attachments.rows.filter (·.channelId = channelId)
    let messages := t.messages.rows.filter (·.channelId = channelId)
    if ← sql begin then
      let _ ← keepOverwrites (fun _ => pure categoryRows) (orphans.map (·, channelId))
      sql (deleteChannelKeys channelId)
      let ok ← sql (execAll (wipeChannel channelId))
      sql (finish ok)
      eraseOverwritesCache channelId
      invalidateChannelLayout
      return if ok then
        some {
          unlinkPaths := (attachments.filterMap (·.storagePath)).filter (· ≠ "")
          deletedAttachmentCount := attachments.length
          deletedMessageCount := messages.length }
      else none
    else return none

theorem deleteChannel_eq (channelId : String) : deleteChannel channelId = do
    let r ← deleteRows channelId
    if r.isSome then normalizeChannelOrder
    return r := by
  rw [deleteChannel, deleteRows, bind_assoc]
  refine bind_congr fun d => ?_
  dsimp only
  split
  · rfl
  simp only [bind_assoc]
  refine bind_congr fun layout => bind_congr fun rows => bind_congr fun opened => ?_
  cases opened with
  | false => rfl
  | true =>
    simp only [if_true, bind_assoc]
    refine bind_congr fun _ => bind_congr fun _ => bind_congr fun ok => bind_congr fun _ =>
      bind_congr fun _ => bind_congr fun _ => ?_
    cases ok <;> rfl

theorem movesNone_wipe {channelId : String} {stmt : Stmt}
    (h : stmt ∈ [(fun t => some { t with
        attachments := t.attachments.deleteWhere (·.channelId = channelId) } : Stmt),
      fun t => some { t with messages := t.messages.deleteWhere (·.channelId = channelId) },
      deleteOverwrites (·.channelId = channelId)]) : MovesNone stmt := by
  simp only [mem_cons, not_mem_nil, or_false] at h
  rcases h with rfl | rfl | rfl
  all_goals exact movesNone_of_channels fun t t' hs => by cases hs; rfl

theorem movesNone_keyDeletes {channelId : String} {stmt : Stmt} (h : stmt ∈ keyDeletes channelId) :
    MovesNone stmt := by
  simp only [keyDeletes, mem_cons, not_mem_nil, or_false] at h
  rcases h with rfl | rfl | rfl | rfl
  all_goals exact movesNone_of_channels fun t t' hs => by cases hs; rfl

theorem facing_deleteRows (channelId : String) (t : Tables) (os : List Outcome) :
    Triple (Facing Whatever ⟨t, none, os⟩) (deleteRows channelId) fun r d => d.conn.Idle ∧
      (places d.tables.ordered = places t.ordered ∨ r.isSome ∧ channelId ∈ t.channels.keys ∧
        places d.tables.ordered = placesWithout channelId t) := by
  let P : List (String × ChannelType × Int) → Prop := (· = places t.ordered)
  have hsame : ∀ {r : Option WipeChannelResult} d, Quiet (OfPlaces P) d → d.conn.Idle ∧
      (places d.tables.ordered = places t.ordered ∨ r.isSome ∧ channelId ∈ t.channels.keys ∧
        places d.tables.ordered = placesWithout channelId t) := fun d hd => ⟨hd.idle, .inl hd.rel⟩
  have hplaces : ∀ d, Facing Whatever ⟨t, none, os⟩ d → Quiet (OfPlaces P) d := fun d hd =>
    ⟨congrArg (fun t : Tables => places t.ordered) hd.tables, congrArg Conn.saved hd.conn⟩
  refine .get_bind fun d hd => ?_
  rw [hd.tables]
  refine .ite (fun _ => .pure fun d hd => hsame d (hplaces d hd)) fun hid => ?_
  have hid : channelId ∈ t.channels.keys := by simpa using hid
  refine Triple.conseq (P := Quiet (OfPlaces P)) ?_ hplaces fun _ _ h => h
  refine stable_quiet.keeps_getLayout.seq fun layout =>
    (stable_quiet.keeps_overwritesIf _ _).seq fun rows => triple_begin ?_ (.pure hsame)
  refine (keeps_places_keepOverwrites (fun _ => Keeps.pure) _).seq fun _ =>
    Keeps.seq (keeps_sql fun m => deleteChannelKeys_eq channelId ▸
      within_execEach fun _ hs => (movesNone_keyDeletes hs).preserves m) fun _ => ?_
  -- the channel is gone exactly if all deletions ran and are committed
  have hwipe : Triple (Inv (OfPlaces P)) (sql (execAll (wipeChannel channelId))) fun ok d =>
      (ok = false → Inv (OfPlaces P) d) ∧ (ok = true →
        (∃ u, OfPlaces P d.toMemory u ∧ Tables.deleteChannel channelId u = some d.tables) ∧
          ∀ u ∈ d.conn.saved, OfPlaces P d.toMemory u) := fun d hd =>
    triple_execAll_snoc (R := OfPlaces P d.toMemory)
      (fun _ hs => (movesNone_wipe hs).preserves d.toMemory) d.conn hd
  refine hwipe.bind fun ok => Triple.bind (Q := fun _ d => d.conn.Idle ∧
    (places d.tables.ordered = places t.ordered ∨
      ok = true ∧ places d.tables.ordered = placesWithout channelId t)) (fun d hd => ?_)
    fun _ d hd => ⟨hd.1, hd.2.imp id fun h => ⟨by rw [h.1]; rfl, hid, h.2⟩⟩
  obtain ⟨hidle, htables⟩ := finish_spec ok d.conn
  refine ⟨hidle, ?_⟩
  have hundone : d.conn.base = d.conn.undone.tables := rfl
  change places ((finish ok).run d.conn).2.tables.ordered = _ ∨
    ok = true ∧ places ((finish ok).run d.conn).2.tables.ordered = _
  cases ok with
  | false =>
    have hbase := htables.resolve_right fun h => Bool.noConfusion h.1
    rw [hbase, hundone]
    exact .inl (Within.undone (hd.1 rfl)).1
  | true =>
    obtain ⟨⟨u, hu, hdelete⟩, hsaved⟩ := hd.2 rfl
    have hwithout : places d.conn.tables.ordered = placesWithout channelId t := by
      rw [placesWithout, ← (show places u.ordered = places t.ordered from hu)]
      exact places_deleteChannel hdelete
    rcases htables with hbase | ⟨-, hkept⟩
    · rw [hbase, base]
      cases hsv : d.conn.saved with
      | none => exact .inr ⟨rfl, hwithout⟩
      | some v => exact .inl (hsaved v hsv)
    · rw [hkept]
      exact .inr ⟨rfl, hwithout⟩

/-- A committed deletion is of the last channel, or the others are put in place. -/
def DeletesInOrder (channelId : String) (d : CommunityDb) : Prop :=
  let d' := ((deleteRows channelId).run d).2
  channelId ∈ d.tables.channels.keys → channelId ∉ d'.tables.channels.keys →
    (∃ c, d.tables.ordered.getLast? = some c ∧ c.id = channelId) ∨
      Normalizes d'.tables.channels.rows.length d'.conn.outcomes

theorem deleteChannel_inOrder {d : CommunityDb} (hidle : d.conn.Idle) (ht : d.tables.InOrder)
    (channelId : String) : ((deleteChannel channelId).run d).2.conn.Idle ∧
      (((deleteChannel channelId).run d).2.tables.InOrder ↔ DeletesInOrder channelId d) := by
  have hd : Facing Whatever ⟨d.tables, none, d.conn.outcomes⟩ d :=
    ⟨trivial, congrArg (fun sv => (⟨d.tables, sv, d.conn.outcomes⟩ : Conn Tables)) hidle⟩
  obtain ⟨hidle', hplaces⟩ := facing_deleteRows channelId d.tables d.conn.outcomes d hd
  rw [deleteChannel_eq, run_bind, DeletesInOrder]
  generalize ((deleteRows channelId).run d).1 = r at hplaces ⊢
  generalize ((deleteRows channelId).run d).2 = d' at hidle' hplaces ⊢
  have hd' : Facing Whatever ⟨d'.tables, none, d'.conn.outcomes⟩ d' :=
    ⟨trivial, congrArg (fun sv => (⟨d'.tables, sv, d'.conn.outcomes⟩ : Conn Tables)) hidle'⟩
  have hkeys : ∀ {u v : Tables}, places u.ordered = places v.ordered →
      (channelId ∈ u.channels.keys ↔ channelId ∈ v.channels.keys) := fun h => by
    rw [← ids_of_places, h, ids_of_places]
  cases r with
  | none =>
    have hsame := hplaces.resolve_right fun h => Bool.noConfusion h.1
    refine ⟨hidle', iff_of_true (.of_places hsame ht) fun hid hgone => ?_⟩
    exact absurd ((hkeys hsame).2 hid) hgone
  | some r =>
    obtain hnormal := facing_normalize (M := Whatever) (fun _ _ => trivial) d' hd'
    refine ⟨congrArg Conn.saved hnormal.conn, ?_⟩
    have htables : ((normalizeChannelOrder).run d').2.tables =
        if Normalizes d'.tables.channels.rows.length d'.conn.outcomes then normalized d'.tables
        else d'.tables := hnormal.tables
    change ((normalizeChannelOrder).run d').2.tables.InOrder ↔ _
    rw [htables]
    split
    · exact iff_of_true (inOrder_normalized _) fun _ _ => .inr ‹_›
    rename_i hno
    rcases hplaces with hsame | ⟨-, hid, hwithout⟩
    · refine iff_of_true (.of_places hsame ht) fun hid hgone => ?_
      exact absurd ((hkeys hsame).2 hid) hgone
    · constructor
      · exact fun hu _ _ => .inl (last_of_inOrder ht hid hwithout hu)
      · intro hkeeps
        have hgone : channelId ∉ d'.tables.channels.keys := by
          rw [← ids_of_places, hwithout, placesWithout]
          rintro hmem
          obtain ⟨p, hp, rfl⟩ := mem_map.1 hmem
          simp at hp
        obtain ⟨c, hc, hcid⟩ := (hkeeps hid hgone).resolve_right hno
        exact ht.dropLast hc hcid hwithout

/-! ## Runs -/

/-- The operations that create, move and delete channels. -/
def ofOrder : DbOp → Bool
  | .createChannel .. | .reorderChannels _ | .deleteChannel _ => true
  | _ => false

/-- The runs of these operations, whatever statements fail. -/
def orderSystem : System CommunityDb (List Outcome × DbOp) where
  init d := d.Opened ∧ d.tables.InOrder
  step d a d' := ofOrder a.2 = true ∧ d' = d.perform a.1 a.2

/-- What is committed out of order is put into order. -/
def KeepsOrder (d : CommunityDb) (a : List Outcome × DbOp) : Prop :=
  match a.2 with
  | .createChannel rawName type _ categoryId _ =>
    CreatesInOrder rawName type categoryId d.tables a.1
  | .reorderChannels orderedIds => ReordersInOrder orderedIds d.tables a.1
  | .deleteChannel channelId => DeletesInOrder channelId (d.facing a.1)
  | _ => True

theorem perform_inOrder {d : CommunityDb} (hidle : d.conn.Idle) (ht : d.tables.InOrder)
    (os : List Outcome) {op : DbOp} (hop : ofOrder op = true) :
    (d.perform os op).tables.InOrder ↔ d.KeepsOrder (os, op) := by
  have hf := Facing.of_facing hidle os
  cases op with
  | createChannel rawName type voiceBitrateKbps categoryId encrypted =>
    exact (facing_createChannel rawName type voiceBitrateKbps categoryId encrypted d.tables os _
      hf).2.inOrder_iff ht
  | reorderChannels orderedIds =>
    obtain ⟨-, u, hu, hplaces⟩ := facing_reorderChannels_places orderedIds d.tables os _ hf
    exact ⟨fun h => (hu.inOrder_iff ht).1 (.of_places hplaces.symm h),
      fun h => .of_places hplaces ((hu.inOrder_iff ht).2 h)⟩
  | deleteChannel channelId => exact (deleteChannel_inOrder (d := d.facing os) hidle ht channelId).2
  | _ => cases hop

theorem idle_perform {d : CommunityDb} (hidle : d.conn.Idle) (os : List Outcome) {op : DbOp}
    (hop : ofOrder op = true) : (d.perform os op).conn.Idle := by
  have hany : AboutRoles fun _ _ => True := fun _ _ _ _ _ _ _ _ => trivial
  have hf : Quiet (fun _ _ => True) (d.facing os) := ⟨trivial, hidle⟩
  cases op with
  | createChannel n t v c e => exact (hany.keeps_createChannel n t v c e _ hf).idle
  | reorderChannels ids => exact (hany.keeps_reorderChannels ids _ hf).idle
  | deleteChannel id => exact (hany.keeps_deleteChannel id _ hf).idle
  | _ => cases hop

theorem idle_of_reachable {d : CommunityDb} (hd : orderSystem.Reachable d) : d.conn.Idle :=
  System.reachable_invariant (S := orderSystem) (I := fun d => d.conn.Idle) (fun _ h => h.1.idle)
    (fun _ a _ hidle hs => hs.2 ▸ idle_perform hidle a.1 hs.1) hd

theorem inOrder_of_reachable {d : CommunityDb} (hd : (orderSystem.given KeepsOrder).Reachable d) :
    d.tables.InOrder := by
  induction hd with
  | init h => exact h.2
  | step a hd hs ih =>
    obtain ⟨⟨hop, rfl⟩, hkeeps⟩ := hs
    exact (perform_inOrder (idle_of_reachable hd.of_given) ih a.1 hop).2 hkeeps

/-- A server with one voice channel. -/
def oneVoice : CommunityDb where
  conn := { tables := {
    channels := .ofRows [{ id := "v", name := [118], type := .voice, position := 0 }] } }

theorem init_oneVoice : orderSystem.init oneVoice := by
  refine ⟨⟨rfl, by decide +kernel, rfl, rfl, rfl, fun h => Bool.noConfusion h⟩,
    by decide +kernel, ?_⟩
  refine grouped_of_isChain ?_
  have htypes : oneVoice.tables.ordered.map DbChannel.type = [.voice] := by decide +kernel
  rw [htypes]
  exact .singleton _

/-- A text channel is created with these answers. -/
def withText (os : List Outcome) : CommunityDb :=
  oneVoice.perform os (.createChannel [97] .text 0 "" false)

theorem reachable_withText (os : List Outcome) : orderSystem.Reachable (withText os) :=
  .step (os, .createChannel [97] .text 0 "" false) (.init init_oneVoice) ⟨rfl, rfl⟩

end CommunityDb
end Decibell
