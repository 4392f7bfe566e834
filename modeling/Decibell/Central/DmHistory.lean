import Decibell.Central.DirectMessages
import Decibell.Lib.Ordering

/-!
# The history of direct messages

An account reads its conversation with a peer page by page: from the newest message back, from a
message on, or around one and then both ways. The query has a row limit, and what it found is cut to
a byte budget: at the end farther from where the account reads, or on both sides of a window.
-/

namespace Decibell.Central

open Lib List

/-! ## The queries -/

namespace DmTables

variable (t : DmTables)

/-- The messages before one (0: the newest), newest first, and whether there are more. -/
def fetchDmHistory (a b beforeId limit : Int) : List DmHistoryRow × Bool :=
  takePage (max 1 (min limit 200)).toNat (t.selectDesc a b fun id => beforeId = 0 ∨ id < beforeId)

/-- The messages around an id, oldest first, and whether there are others. -/
def fetchDmHistoryAround (a b aroundId limit : Int) : List DmHistoryRow × Bool × Bool :=
  let clamped := (if limit > 0 then min limit 100 else 25).toNat
  let (older, hasMoreBefore) := takePage clamped (t.selectDesc a b (· ≤ aroundId))
  let (newer, hasMoreAfter) := takePage clamped (t.selectAsc a b (aroundId < ·))
  (older.reverse ++ newer, hasMoreBefore, hasMoreAfter)

/-- The messages after one, oldest first, and whether there are more. -/
def fetchDmHistoryAfter (a b afterId limit : Int) : List DmHistoryRow × Bool :=
  takePage (if limit > 0 then min limit 200 else 50).toNat (t.selectAsc a b (afterId < ·))

end DmTables

/-! ## The request -/

/-- An older page or the latest, a newer page, or a window around a message. -/
inductive DmPage
  | older
  | newer
  | around
deriving DecidableEq

/-- The rows from `first` up to `last` go out; whether there are others. -/
structure PageSlice where
  first : Nat
  last : Nat
  hasMore : Bool
  hasMoreAfter : Bool

/-- Which rows go out, by their sizes in page order: the first that fit the budget, or, for a
    window, those around the `anchor`, newer and older in turn. One always goes. -/
def dmPageSlice (sizes : List Nat) (mode : DmPage) (anchor : Nat) (hasMore hasMoreAfter : Bool) :
    PageSlice :=
  let n := sizes.length
  if n = 0 then ⟨0, 0, hasMore, hasMoreAfter⟩
  else if mode ≠ .around then
    let last := (fitPage id maxResponseBytes sizes).length
    if mode = .older then ⟨0, last, hasMore || last < n, hasMoreAfter⟩
    else ⟨0, last, hasMore, hasMoreAfter || last < n⟩
  else
    let grown := growPage id maxResponseBytes (sizes.getD anchor 0) (sizes.take anchor).reverse
      (sizes.drop (anchor + 1))
    let first := anchor - grown.1.length
    let last := anchor + 1 + grown.2.length
    ⟨first, last, hasMore || 0 < first, hasMoreAfter || last < n⟩

/-- The last message up to the target, from index `i` on; else `anchor`. -/
def anchorFrom (aroundId : Int) : (i anchor : Nat) → List DmHistoryMessage → Nat
  | _, anchor, [] => anchor
  | i, anchor, m :: ms => anchorFrom aroundId (i + 1) (if m.id ≤ aroundId then i else anchor) ms

structure DmHistoryReq where
  peerUid : Int
  /-- Messages before this one; 0 for the newest. -/
  beforeId : Int := 0
  limit : Int := 0
  aroundId : Int := 0
  /-- Messages after this one, whatever `beforeId` is. -/
  afterId : Int := 0
  peer : String := ""

structure DmHistoryRes where
  peer : String
  peerUid : Int
  /-- The newest first, in an older page; else the oldest first. -/
  messages : List DmHistoryMessage
  hasMore : Bool
  hasMoreAfter : Bool
  aroundId : Int
  afterId : Int
  beforeId : Int

def DmHistoryReq.mode (req : DmHistoryReq) : DmPage :=
  if req.aroundId > 0 then .around else if req.afterId > 0 then .newer else .older

/-- The rows asked for, in page order, and whether there are others; an unknown peer has none. -/
def fetchDmPage (t : DmTables) (uid : Int) (req : DmHistoryReq) :
    List DmHistoryRow × Bool × Bool :=
  let limit := if req.limit ≤ 0 then 50 else req.limit
  let limit := if limit > 200 then 200 else limit
  if (t.users req.peerUid).isNone then ([], false, false)
  else if req.aroundId > 0 then t.fetchDmHistoryAround uid req.peerUid req.aroundId req.limit
  else if req.afterId > 0 then
    let (rows, hasMoreAfter) := t.fetchDmHistoryAfter uid req.peerUid req.afterId req.limit
    (rows, false, hasMoreAfter)
  else
    let (rows, hasMore) := t.fetchDmHistory uid req.peerUid req.beforeId limit
    (rows, hasMore, false)

/-- The answer to the account `uid`; none without a peer's uid. -/
def dmHistory (t : DmTables) (uid : Int) (req : DmHistoryReq) : Option DmHistoryRes :=
  if req.peerUid ≤ 0 then none
  else
    let (rows, hasMore, hasMoreAfter) := fetchDmPage t uid req
    let messages := rows.map DmHistoryMessage.ofRow
    let sizes := messages.map (·.byteSizeLong + 4)
    let anchor := if req.mode = .around then anchorFrom req.aroundId 0 0 messages else 0
    let slice := dmPageSlice sizes req.mode anchor hasMore hasMoreAfter
    some
      { peer := (t.users req.peerUid).getD req.peer
        peerUid := req.peerUid
        messages := (messages.drop slice.first).take (slice.last - slice.first)
        hasMore := slice.hasMore
        hasMoreAfter := slice.hasMoreAfter
        aroundId := req.aroundId
        afterId := req.afterId
        beforeId := req.beforeId }

/-- The ids of a page, in page order. -/
def DmHistoryRes.ids (res : DmHistoryRes) : List Int := res.messages.map (·.id)

/-! ## Reading on -/

section Reading

variable (t : DmTables) (uid peerUid : Int) (limit : Nat → Int)

/-- The messages before an id (0: all), newest first, and where to go on. -/
def olderDms (i : Nat) (beforeId : Int) : List Int × Option Int :=
  match dmHistory t uid { peerUid, beforeId, limit := limit i } with
  | some res => (res.ids, if res.hasMore then res.ids.getLast? else none)
  | none => ([], none)

/-- The messages after an id, and where to go on. -/
def newerDms (i : Nat) (afterId : Int) : List Int × Option Int :=
  match dmHistory t uid { peerUid, afterId, limit := limit i } with
  | some res => (res.ids, if res.hasMoreAfter then res.ids.getLast? else none)
  | none => ([], none)

/-- All the messages before an id, oldest first, page by page. -/
def followOlderDms (fuel : Nat) (beforeId : Int) : Option (List Int) :=
  (follow (olderDms t uid peerUid limit) fuel 0 beforeId).map List.reverse

def followNewerDms (fuel : Nat) (afterId : Int) : Option (List Int) :=
  follow (newerDms t uid peerUid limit) fuel 0 afterId

/-- A window around an id, with all that is older and newer. -/
def followAroundDms (fuel : Nat) (aroundId firstLimit : Int) : Option (List Int) :=
  (dmHistory t uid { peerUid, aroundId, limit := firstLimit }).bind fun res =>
    let older := if res.hasMore then res.ids.head?.bind (followOlderDms t uid peerUid limit fuel)
      else some []
    let newer := if res.hasMoreAfter then
        res.ids.getLast?.bind (followNewerDms t uid peerUid limit fuel)
      else some []
    older.bind fun older => newer.map fun newer => older ++ res.ids ++ newer

/-- The ids of the messages of a pair, the oldest first. -/
def dmIds (a b : Int) : List Int :=
  ((t.messages.rows.filter (·.pair = pairOf a b)).map (·.id)).insertionSort (· ≤ ·)

end Reading

/-! ## The rows that go out -/

/-- The rows that go are one piece, within the budget or a single row. -/
structure IsSlice (sizes : List Nat) (s : PageSlice) : Prop where
  le : s.first ≤ s.last
  last_le : s.last ≤ sizes.length
  goes : sizes ≠ [] → s.first < s.last
  within : ((sizes.drop s.first).take (s.last - s.first)).sum ≤ maxResponseBytes ∨
    s.last - s.first ≤ 1

theorem isSlice_nil {hasMore hasMoreAfter : Bool} : IsSlice [] ⟨0, 0, hasMore, hasMoreAfter⟩ :=
  ⟨Nat.le_refl 0, Nat.le_refl 0, fun h => absurd rfl h, .inr (Nat.zero_le 1)⟩

theorem isSlice_fitPage (sizes : List Nat) (hasMore hasMoreAfter : Bool) :
    IsSlice sizes ⟨0, (fitPage id maxResponseBytes sizes).length, hasMore, hasMoreAfter⟩ := by
  have hfits : fitPage id maxResponseBytes sizes <+: sizes := fitPage_isPrefix sizes
  refine ⟨Nat.zero_le _, hfits.length_le, fun hne => ?_, ?_⟩
  · exact length_pos_of_ne_nil (fitPage_ne_nil hne)
  · have hwithin := fitPage_within id maxResponseBytes sizes
    rw [map_id] at hwithin
    dsimp only
    rw [drop_zero, Nat.sub_zero, ← prefix_iff_eq_take.1 hfits]
    rcases hwithin with hsum | hone | hnil
    · exact .inl hsum
    · exact .inr hone.le
    · rw [hnil]
      exact .inr (Nat.zero_le 1)

theorem slice_of_grown {sizes older newer : List Nat} {anchor : Nat} (h : anchor < sizes.length)
    (hold : older <+: (sizes.take anchor).reverse) (hnew : newer <+: sizes.drop (anchor + 1)) :
    (sizes.drop (anchor - older.length)).take (anchor + 1 + newer.length - (anchor - older.length)) =
      older.reverse ++ sizes[anchor] :: newer := by
  have hlen : older.length ≤ anchor := by
    have hle := hold.length_le
    rw [length_reverse, length_take] at hle
    omega
  have hlen' : newer.length ≤ sizes.length - (anchor + 1) := by
    have hle := hnew.length_le
    rwa [length_drop] at hle
  have htake : (sizes.take anchor).length = anchor := by
    rw [length_take]
    omega
  -- The sizes are what is left of the older ones, what goes, and what is left of the newer ones.
  have hsizes : sizes = (sizes.take anchor).take (anchor - older.length) ++
      (older.reverse ++ sizes[anchor] :: newer) ++ (sizes.drop (anchor + 1)).drop newer.length := by
    have hleft := take_append_reverse hold
    rw [htake] at hleft
    calc sizes = sizes.take anchor ++ sizes[anchor] :: sizes.drop (anchor + 1) := by
          rw [← drop_eq_getElem_cons h, take_append_drop]
      _ = ((sizes.take anchor).take (anchor - older.length) ++ older.reverse) ++
            sizes[anchor] :: (newer ++ (sizes.drop (anchor + 1)).drop newer.length) := by
          rw [hleft, prefix_iff_eq_append.1 hnew]
      _ = _ := by simp only [append_assoc, cons_append]
  have hfirst : ((sizes.take anchor).take (anchor - older.length)).length =
      anchor - older.length := by
    rw [length_take, htake]
    omega
  have hcount : (older.reverse ++ sizes[anchor] :: newer).length =
      anchor + 1 + newer.length - (anchor - older.length) := by
    rw [length_append, length_reverse, length_cons]
    omega
  generalize hpage : older.reverse ++ sizes[anchor] :: newer = page at hsizes hcount ⊢
  rw [hsizes, append_assoc, drop_left' hfirst, take_left' hcount]

theorem isSlice_around {sizes : List Nat} {anchor : Nat} (h : anchor < sizes.length)
    (hasMore hasMoreAfter : Bool) :
    IsSlice sizes (dmPageSlice sizes .around anchor hasMore hasMoreAfter) ∧
      (dmPageSlice sizes .around anchor hasMore hasMoreAfter).first ≤ anchor ∧
      anchor < (dmPageSlice sizes .around anchor hasMore hasMoreAfter).last := by
  have hne : sizes.length ≠ 0 := fun h0 => absurd (h0 ▸ h) (Nat.not_lt_zero _)
  have hget : sizes.getD anchor 0 = sizes[anchor] := by
    rw [getD_eq_getElem?_getD, getElem?_eq_getElem h, Option.getD_some]
  rw [dmPageSlice, if_neg hne, if_neg (fun hmode => hmode rfl), hget]
  obtain ⟨hold, hnew⟩ := growPage_isPrefix id maxResponseBytes sizes[anchor]
    (sizes.take anchor).reverse (sizes.drop (anchor + 1))
  generalize hgrown : growPage id maxResponseBytes sizes[anchor] (sizes.take anchor).reverse
    (sizes.drop (anchor + 1)) = grown at hold hnew
  have hlast := hnew.length_le
  rw [length_drop] at hlast
  dsimp only
  refine ⟨⟨?_, ?_, fun _ => ?_, ?_⟩, ?_, ?_⟩
  · dsimp only
    omega
  · dsimp only
    omega
  · dsimp only
    omega
  · dsimp only
    rw [slice_of_grown h hold hnew]
    by_cases hfits : sizes[anchor] ≤ maxResponseBytes
    · have hsum := sum_growPage_le id hfits (sizes.take anchor).reverse (sizes.drop (anchor + 1))
      rw [hgrown, map_id, map_id] at hsum
      rw [sum_append, sum_reverse, sum_cons]
      exact .inl (by omega)
    · rw [growPage_of_lt (Nat.lt_of_not_le hfits)] at hgrown
      subst hgrown
      exact .inr (by dsimp only [length_nil]; omega)
  · omega
  · omega

theorem dmPageSlice_older (sizes : List Nat) (anchor : Nat) (hasMore hasMoreAfter : Bool) :
    ∃ last, dmPageSlice sizes .older anchor hasMore hasMoreAfter =
        ⟨0, last, hasMore || last < sizes.length, hasMoreAfter⟩ ∧
      IsSlice sizes (dmPageSlice sizes .older anchor hasMore hasMoreAfter) := by
  rw [dmPageSlice]
  by_cases hnil : sizes = []
  · subst hnil
    exact ⟨0, by simp, isSlice_nil⟩
  · rw [if_neg (mt length_eq_zero_iff.1 hnil), if_pos (by decide), if_pos rfl]
    exact ⟨_, rfl, isSlice_fitPage ..⟩

theorem dmPageSlice_newer (sizes : List Nat) (anchor : Nat) (hasMore hasMoreAfter : Bool) :
    ∃ last, dmPageSlice sizes .newer anchor hasMore hasMoreAfter =
        ⟨0, last, hasMore, hasMoreAfter || last < sizes.length⟩ ∧
      IsSlice sizes (dmPageSlice sizes .newer anchor hasMore hasMoreAfter) := by
  rw [dmPageSlice]
  by_cases hnil : sizes = []
  · subst hnil
    exact ⟨0, by simp, isSlice_nil⟩
  · rw [if_neg (mt length_eq_zero_iff.1 hnil), if_pos (by decide), if_neg (by decide)]
    exact ⟨_, rfl, isSlice_fitPage ..⟩

theorem dmPageSlice_around {sizes : List Nat} {anchor : Nat}
    (h : sizes ≠ [] → anchor < sizes.length) (hasMore hasMoreAfter : Bool) :
    ∃ first last, dmPageSlice sizes .around anchor hasMore hasMoreAfter =
        ⟨first, last, hasMore || 0 < first, hasMoreAfter || last < sizes.length⟩ ∧
      IsSlice sizes (dmPageSlice sizes .around anchor hasMore hasMoreAfter) ∧
      (sizes ≠ [] → first ≤ anchor ∧ anchor < last) := by
  by_cases hnil : sizes = []
  · subst hnil
    exact ⟨0, 0, by simp [dmPageSlice], isSlice_nil, fun hne => absurd rfl hne⟩
  · obtain ⟨hslice, hfirst, hlast⟩ := isSlice_around (h hnil) hasMore hasMoreAfter
    rw [dmPageSlice, if_neg (mt length_eq_zero_iff.1 hnil), if_neg (fun hmode => hmode rfl)]
      at hslice hfirst hlast ⊢
    exact ⟨_, _, rfl, hslice, fun _ => ⟨hfirst, hlast⟩⟩

theorem anchorFrom_lt {aroundId : Int} {i anchor bound : Nat} {l : List DmHistoryMessage}
    (hanchor : anchor < bound) (hbound : i + l.length ≤ bound) :
    anchorFrom aroundId i anchor l < bound := by
  induction l generalizing i anchor with
  | nil => exact hanchor
  | cons m l ih =>
    rw [length_cons] at hbound
    rw [anchorFrom]
    refine ih ?_ (by omega)
    split
    · omega
    · exact hanchor

theorem anchorFrom_eq {aroundId : Int} {i anchor : Nat} {upto beyond : List DmHistoryMessage}
    {m : DmHistoryMessage} (hm : m.id ≤ aroundId) (hbeyond : ∀ x ∈ beyond, aroundId < x.id) :
    anchorFrom aroundId i anchor (upto ++ m :: beyond) = i + upto.length := by
  induction upto generalizing i anchor with
  | nil =>
    rw [nil_append, anchorFrom, if_pos hm]
    -- Nothing beyond the target moves the anchor.
    suffices hkeep : ∀ j, anchorFrom aroundId j i beyond = i from hkeep _
    intro j
    induction beyond generalizing j with
    | nil => rfl
    | cons x beyond ih =>
      rw [anchorFrom, if_neg (Int.not_le.2 (hbeyond x (.head _)))]
      exact ih (fun y hy => hbeyond y (.tail _ hy)) _
  | cons x upto ih =>
    rw [cons_append, anchorFrom, ih, length_cons]
    omega

/-! ## What a request finds -/

section Found

variable {t : DmTables} {a b : Int}

theorem pairwise_dmIds : (dmIds t a b).Pairwise (· < ·) := by
  have hnodup : (dmIds t a b).Nodup := by
    refine (perm_insertionSort _ _).nodup_iff.2 ?_
    exact t.messages.nodup.sublist (filter_sublist.map _)
  refine (pairwise_insertionSort (· ≤ ·) _).imp₂ (fun x y hle hne => ?_) hnodup
  exact lt_of_le_of_ne hle hne

theorem mem_dmIds {id : Int} :
    id ∈ dmIds t a b ↔ ∃ m ∈ t.messages.rows, m.pair = pairOf a b ∧ m.id = id := by
  simp [dmIds, and_assoc]

theorem map_id_filter (l : List DmMessage) (p : Int → Bool) :
    (l.filter fun m => m.pair = pairOf a b ∧ p m.id).map (·.id) =
      ((l.filter (·.pair = pairOf a b)).map (·.id)).filter p := by
  rw [filter_map, filter_filter]
  congr 1
  refine filter_congr fun m _ => ?_
  by_cases hp : p m.id <;> simp [hp]

theorem dmRowFrom_id {m : DmMessage} {r : DmHistoryRow} (h : t.dmRowFrom a b m = some r) :
    r.id = m.id := by
  obtain ⟨name, -, rfl⟩ := Option.map_eq_some_iff.1 h
  rfl

theorem map_id_filterMap {l : List DmMessage} (h : ∀ m ∈ l, (t.users m.senderUid).isSome) :
    (l.filterMap (t.dmRowFrom a b)).map (·.id) = l.map (·.id) := by
  induction l with
  | nil => rfl
  | cons m l ih =>
    obtain ⟨name, hname⟩ := Option.isSome_iff_exists.1 (h m (.head _))
    obtain ⟨r, hr⟩ : ∃ r, t.dmRowFrom a b m = some r := by
      rw [DmTables.dmRowFrom, hname]
      exact ⟨_, rfl⟩
    rw [filterMap_cons_some hr, map_cons, map_cons, dmRowFrom_id hr,
      ih fun m hm => h m (.tail _ hm)]

end Found

section Db

variable {t : DmDb} {a b uid peerUid : Int}

theorem ids_selectAsc (p : Int → Bool) :
    (t.selectAsc a b p).map (·.id) = (dmIds t.toDmTables a b).filter p := by
  rw [DmTables.selectAsc, map_id_filterMap,
    map_insertionSort _ (s := (· ≤ ·)) _ _ fun _ _ _ _ => Iff.rfl, map_id_filter,
    insertionSort_filter]
  · rfl
  · intro m hm
    exact (t.accounts m (mem_filter.1 ((mem_insertionSort _).1 hm)).1).1

theorem ids_selectDesc (p : Int → Bool) :
    (t.selectDesc a b p).map (·.id) = ((dmIds t.toDmTables a b).filter p).reverse := by
  rw [DmTables.selectDesc, map_id_filterMap,
    map_insertionSort _ (s := fun x y => y ≤ x) _ _ fun _ _ _ _ => Iff.rfl, map_id_filter,
    insertionSort_swap (r := (· ≤ ·)), insertionSort_filter]
  · rfl
  · intro m hm
    exact (t.accounts m (mem_filter.1 ((mem_insertionSort _).1 hm)).1).1

theorem dmIds_eq_nil (h : t.users peerUid = none) : dmIds t.toDmTables uid peerUid = [] := by
  rw [eq_nil_iff_forall_not_mem]
  intro id hid
  obtain ⟨m, hm, hpair, -⟩ := mem_dmIds.1 hid
  obtain ⟨hsender, hrecipient⟩ := t.accounts m hm
  rw [DmMessage.pair, pairOf, pairOf, Prod.mk.injEq] at hpair
  have hone : m.senderUid = peerUid ∨ m.recipientUid = peerUid := by omega
  rcases hone with heq | heq
  · rw [heq, h] at hsender
    exact absurd hsender Bool.false_ne_true
  · rw [heq, h] at hrecipient
    exact absurd hrecipient Bool.false_ne_true

variable (uid) in
theorem selects_eq_nil (h : t.users peerUid = none) (p : Int → Bool) :
    t.selectAsc uid peerUid p = [] ∧ t.selectDesc uid peerUid p = [] := by
  have hasc := ids_selectAsc (t := t) (a := uid) (b := peerUid) p
  have hdesc := ids_selectDesc (t := t) (a := uid) (b := peerUid) p
  rw [dmIds_eq_nil h] at hasc hdesc
  exact ⟨map_eq_nil_iff.1 hasc, map_eq_nil_iff.1 hdesc⟩

/-- What is fetched; the queries would find nothing for an unknown peer. -/
theorem fetchDmPage_eq (req : DmHistoryReq) : fetchDmPage t.toDmTables uid req =
    match req.mode with
    | .around => t.fetchDmHistoryAround uid req.peerUid req.aroundId req.limit
    | .newer =>
      ((t.fetchDmHistoryAfter uid req.peerUid req.afterId req.limit).1, false,
        (t.fetchDmHistoryAfter uid req.peerUid req.afterId req.limit).2)
    | .older =>
      let limit := if req.limit ≤ 0 then 50 else req.limit
      let limit := if limit > 200 then 200 else limit
      ((t.fetchDmHistory uid req.peerUid req.beforeId limit).1,
        (t.fetchDmHistory uid req.peerUid req.beforeId limit).2, false) := by
  rw [fetchDmPage, DmHistoryReq.mode]
  dsimp only
  by_cases hpeer : (t.users req.peerUid).isNone = true
  · have hnone := fun p => selects_eq_nil uid (Option.isNone_iff_eq_none.1 hpeer) p
    rw [if_pos hpeer]
    split <;> rename_i hmode
    · rw [DmTables.fetchDmHistoryAround, (hnone _).1, (hnone _).2, takePage_nil]
      rfl
    · rw [DmTables.fetchDmHistoryAfter, (hnone _).1, takePage_nil]
    · rw [DmTables.fetchDmHistory, (hnone _).2, takePage_nil]
  · rw [if_neg hpeer]
    by_cases haround : req.aroundId > 0
    · rw [if_pos haround, if_pos haround]
    · rw [if_neg haround, if_neg haround]
      by_cases hafter : req.afterId > 0
      · rw [if_pos hafter, if_pos hafter]
      · rw [if_neg hafter, if_neg hafter]

/-- The sizes of rows as they go out, with tag and length. -/
def sizesOf (rows : List DmHistoryRow) : List Nat :=
  (rows.map DmHistoryMessage.ofRow).map (·.byteSizeLong + 4)

theorem length_sizesOf (rows : List DmHistoryRow) : (sizesOf rows).length = rows.length := by
  rw [sizesOf, length_map, length_map]

theorem length_keys (rows : List DmHistoryRow) :
    (rows.map (·.id)).length = (sizesOf rows).length := by
  rw [length_map, length_sizesOf]

theorem sizesOf_ne_nil {rows : List DmHistoryRow} :
    sizesOf rows ≠ [] ↔ rows.map (·.id) ≠ [] := by
  rw [sizesOf, ne_eq, ne_eq, map_eq_nil_iff, map_eq_nil_iff, map_eq_nil_iff]

/-- Where a window grows from. -/
def anchorOf (req : DmHistoryReq) (rows : List DmHistoryRow) : Nat :=
  if req.mode = .around then anchorFrom req.aroundId 0 0 (rows.map DmHistoryMessage.ofRow) else 0

theorem dmHistory_of_fetched {t : DmTables} {req : DmHistoryReq} (hpeer : 0 < req.peerUid)
    {rows : List DmHistoryRow} {hasMore hasMoreAfter : Bool}
    (hpage : fetchDmPage t uid req = (rows, hasMore, hasMoreAfter)) {first last : Nat} {more after : Bool}
    (hs : dmPageSlice (sizesOf rows) req.mode (anchorOf req rows) hasMore hasMoreAfter =
      ⟨first, last, more, after⟩) :
    ∃ res, dmHistory t uid req = some res ∧
      res.ids = ((rows.map (·.id)).drop first).take (last - first) ∧
      res.hasMore = more ∧ res.hasMoreAfter = after ∧
      res.messages = ((rows.map DmHistoryMessage.ofRow).drop first).take (last - first) := by
  have hids : (rows.map DmHistoryMessage.ofRow).map (·.id) = rows.map (·.id) := by
    rw [map_map]
    rfl
  have hslice : dmPageSlice ((rows.map DmHistoryMessage.ofRow).map (·.byteSizeLong + 4)) req.mode
      (if req.mode = .around then anchorFrom req.aroundId 0 0 (rows.map DmHistoryMessage.ofRow)
        else 0) hasMore hasMoreAfter = ⟨first, last, more, after⟩ := hs
  rw [dmHistory, if_neg (Int.not_le.2 hpeer), hpage]
  dsimp only
  rw [hslice]
  refine ⟨_, rfl, ?_, rfl, rfl, rfl⟩
  rw [DmHistoryRes.ids, map_take, map_drop, hids]

variable (t uid) in
theorem dmHistory_older (hpeer : 0 < peerUid) (beforeId limit : Int) :
    ∃ res older, dmHistory t.toDmTables uid { peerUid, beforeId, limit } = some res ∧
      IsWindow ((dmIds t.toDmTables uid peerUid).filter fun id => beforeId = 0 ∨ id < beforeId)
        older res.ids.reverse [] res.hasMore res.hasMoreAfter := by
  generalize hreq : ({ peerUid, beforeId, limit } : DmHistoryReq) = req
  have hpeer' : 0 < req.peerUid := by subst hreq; exact hpeer
  have hmode : req.mode = .older := by subst hreq; rfl
  generalize hrows : t.selectDesc uid peerUid (fun id => beforeId = 0 ∨ id < beforeId) = rows
  obtain ⟨n, hn, hpage⟩ : ∃ n > 0, fetchDmPage t.toDmTables uid req =
      ((takePage n rows).1, (takePage n rows).2, false) := by
    rw [fetchDmPage_eq, hmode, ← hrows]
    subst hreq
    exact ⟨_, by dsimp only; omega, rfl⟩
  have hids : rows.map (·.id) =
      ((dmIds t.toDmTables uid peerUid).filter fun id => beforeId = 0 ∨ id < beforeId).reverse :=
    hrows ▸ ids_selectDesc _
  have hfetched := IsWindow.fetched hn (rows.map (·.id)) []
  rw [takePage_map, takePage_nil, append_nil, append_nil, hids, reverse_reverse,
    drop_nil] at hfetched
  dsimp only at hfetched
  obtain ⟨last, hslice, hfit⟩ := dmPageSlice_older (sizesOf (takePage n rows).1)
    (anchorOf req (takePage n rows).1) (takePage n rows).2 false
  obtain ⟨res, hres, hout, hmore, hafter, -⟩ := dmHistory_of_fetched hpeer' hpage (hmode ▸ hslice)
  rw [hslice] at hfit
  have hkeep := hfetched.keepLast last (length_keys _ ▸ hfit.last_le)
    fun hne => hfit.goes (sizesOf_ne_nil.2 hne)
  rw [drop_zero, Nat.sub_zero] at hout
  rw [length_keys, ← hout, ← hmore, ← hafter] at hkeep
  exact ⟨res, _, hres, hkeep⟩

variable (t uid) in
theorem dmHistory_newer (hpeer : 0 < peerUid) {afterId : Int} (hid : 0 < afterId) (limit : Int) :
    ∃ res newer, dmHistory t.toDmTables uid { peerUid, afterId, limit } = some res ∧
      IsWindow ((dmIds t.toDmTables uid peerUid).filter (afterId < ·)) [] res.ids newer
        res.hasMore res.hasMoreAfter := by
  generalize hreq : ({ peerUid, afterId, limit } : DmHistoryReq) = req
  have hpeer' : 0 < req.peerUid := by subst hreq; exact hpeer
  have hmode : req.mode = .newer := by
    subst hreq
    exact (if_neg (lt_irrefl (0 : Int))).trans (if_pos hid)
  generalize hrows : t.selectAsc uid peerUid (afterId < ·) = rows
  obtain ⟨n, hn, hpage⟩ : ∃ n > 0, fetchDmPage t.toDmTables uid req =
      ((takePage n rows).1, false, (takePage n rows).2) := by
    rw [fetchDmPage_eq, hmode, ← hrows]
    subst hreq
    exact ⟨_, by dsimp only; split <;> omega, rfl⟩
  have hids : rows.map (·.id) = (dmIds t.toDmTables uid peerUid).filter (afterId < ·) :=
    hrows ▸ ids_selectAsc _
  have hfetched := IsWindow.fetched hn [] (rows.map (·.id))
  rw [takePage_map, takePage_nil, drop_nil, hids] at hfetched
  dsimp only [reverse_nil, nil_append] at hfetched
  obtain ⟨last, hslice, hfit⟩ := dmPageSlice_newer (sizesOf (takePage n rows).1)
    (anchorOf req (takePage n rows).1) false (takePage n rows).2
  obtain ⟨res, hres, hout, hmore, hafter, -⟩ := dmHistory_of_fetched hpeer' hpage (hmode ▸ hslice)
  rw [hslice] at hfit
  have hkeep := hfetched.keepFirst last (length_keys _ ▸ hfit.last_le)
    fun hne => hfit.goes (sizesOf_ne_nil.2 hne)
  rw [drop_zero, Nat.sub_zero] at hout
  rw [length_keys, ← hout, ← hmore, ← hafter] at hkeep
  exact ⟨res, _, hres, hkeep⟩

variable (t uid) in
theorem dmHistory_around (hpeer : 0 < peerUid) {aroundId : Int} (hid : 0 < aroundId) (limit : Int) :
    ∃ res older newer, dmHistory t.toDmTables uid { peerUid, aroundId, limit } = some res ∧
      IsWindow (dmIds t.toDmTables uid peerUid) older res.ids newer res.hasMore res.hasMoreAfter ∧
      (aroundId ∈ dmIds t.toDmTables uid peerUid → aroundId ∈ res.ids) := by
  generalize hreq : ({ peerUid, aroundId, limit } : DmHistoryReq) = req
  have hpeer' : 0 < req.peerUid := by subst hreq; exact hpeer
  have haround : req.aroundId = aroundId := by subst hreq; rfl
  have hmode : req.mode = .around := by
    subst hreq
    exact if_pos hid
  generalize hupto : t.selectDesc uid peerUid (· ≤ aroundId) = upto
  generalize hbeyond : t.selectAsc uid peerUid (aroundId < ·) = beyond
  obtain ⟨n, hn, hpage⟩ : ∃ n > 0, fetchDmPage t.toDmTables uid req =
      ((takePage n upto).1.reverse ++ (takePage n beyond).1, (takePage n upto).2,
        (takePage n beyond).2) := by
    rw [fetchDmPage_eq, hmode, ← hupto, ← hbeyond]
    subst hreq
    exact ⟨_, by dsimp only; split <;> omega, rfl⟩
  have hidsUpto : upto.map (·.id) = ((dmIds t.toDmTables uid peerUid).filter (· ≤ aroundId)).reverse :=
    hupto ▸ ids_selectDesc _
  have hidsBeyond : beyond.map (·.id) = (dmIds t.toDmTables uid peerUid).filter (aroundId < ·) :=
    hbeyond ▸ ids_selectAsc _
  have hall : (upto.map (·.id)).reverse ++ beyond.map (·.id) = dmIds t.toDmTables uid peerUid := by
    rw [hidsUpto, hidsBeyond, reverse_reverse]
    exact filter_append_filter_lt pairwise_dmIds aroundId
  have hfetched := IsWindow.fetched hn (upto.map (·.id)) (beyond.map (·.id))
  rw [takePage_map, takePage_map, hall] at hfetched
  dsimp only at hfetched
  rw [← map_reverse, ← map_append] at hfetched
  generalize hrows : (takePage n upto).1.reverse ++ (takePage n beyond).1 = rows at hpage hfetched
  have hanchor : sizesOf rows ≠ [] → anchorOf req rows < (sizesOf rows).length := by
    intro hne
    rw [anchorOf, if_pos hmode]
    refine anchorFrom_lt (length_pos_of_ne_nil hne) ?_
    rw [Nat.zero_add, length_map, length_sizesOf]
  obtain ⟨first, last, hslice, hfit, hwithin⟩ := dmPageSlice_around hanchor (takePage n upto).2
    (takePage n beyond).2
  obtain ⟨res, hres, hout, hmore, hafter, -⟩ := dmHistory_of_fetched hpeer' hpage (hmode ▸ hslice)
  rw [hslice] at hfit
  have hcut := hfetched.cut first last hfit.le (length_keys _ ▸ hfit.last_le)
    fun hne => hfit.goes (sizesOf_ne_nil.2 hne)
  rw [length_keys, ← hout, ← hmore, ← hafter] at hcut
  refine ⟨res, _, _, hres, hcut, fun hmem => ?_⟩
  -- The target is the newest row up to the id, and the anchor.
  obtain ⟨done, rest, hsplit⟩ := append_of_mem hmem
  rw [filter_le_of_append pairwise_dmIds hsplit, reverse_append] at hidsUpto
  obtain ⟨m, upto', hcons, hm, -⟩ := map_eq_cons_iff.1 hidsUpto
  obtain ⟨k, rfl⟩ : ∃ k, n = k + 1 := ⟨n - 1, by omega⟩
  have hsplit' : rows = (upto'.take k).reverse ++ m :: (takePage (k + 1) beyond).1 := by
    rw [← hrows, takePage_eq, hcons, take_succ_cons, reverse_cons, append_assoc]
    rfl
  have hanchor : anchorOf req rows = (upto'.take k).reverse.length := by
    rw [anchorOf, if_pos hmode, hsplit', map_append, map_cons, anchorFrom_eq,
      Nat.zero_add, length_map]
    · exact (hm.trans haround.symm).le
    · intro x hx
      obtain ⟨r, hr, rfl⟩ := mem_map.1 hx
      rw [takePage_eq] at hr
      have hr := mem_map_of_mem (f := (·.id)) (mem_of_mem_take hr)
      rw [hidsBeyond] at hr
      exact haround ▸ of_decide_eq_true (mem_filter.1 hr).2
  obtain ⟨hfirst, hlast⟩ := hwithin (sizesOf_ne_nil.2 (by
    rw [hsplit', map_append]
    exact append_ne_nil_of_right_ne_nil _ (cons_ne_nil _ _)))
  rw [hanchor] at hfirst hlast
  have hkeys : rows.map (·.id) = (upto'.take k).reverse.map (·.id) ++
      m.id :: (takePage (k + 1) beyond).1.map (·.id) := by
    rw [hsplit', map_append, map_cons]
  rw [← length_map (·.id)] at hfirst hlast
  rw [hout, ← hm]
  exact mem_slice hkeys hfirst hlast

/-! ## Following the pages -/

variable {limit : Nat → Int}

theorem pos_of_mem_dmIds {id : Int} (h : id ∈ dmIds t.toDmTables a b) : 0 < id := by
  obtain ⟨m, hm, -, rfl⟩ := mem_dmIds.1 h
  exact t.positive m hm

theorem filter_before {id : Int} (h : 0 < id) (l : List Int) :
    l.filter (fun x => id = 0 ∨ x < id) = l.filter (· < id) := by
  refine filter_congr fun x _ => ?_
  simp [Int.ne_of_gt h]

theorem serves_olderDms (hpeer : 0 < peerUid) (i : Nat) {beforeId : Int} (hbefore : 0 ≤ beforeId) :
    Serves (fun c => ((dmIds t.toDmTables uid peerUid).filter fun id => c = 0 ∨ id < c).reverse)
      (0 ≤ ·) beforeId (olderDms t.toDmTables uid peerUid limit i beforeId) := by
  obtain ⟨res, older, hres, hwindow⟩ := dmHistory_older t uid hpeer beforeId (limit i)
  have hpage := hwindow.serves_before
    (fun c => ((dmIds t.toDmTables uid peerUid).filter fun id => c = 0 ∨ id < c).reverse) (0 ≤ ·)
    id pairwise_dmIds ?_ rfl fun x hx => ?_
  · rw [Option.map_id, reverse_reverse, head?_reverse] at hpage
    rw [olderDms, hres]
    exact hpage
  · intro y z hy hlt
    simp only [decide_eq_true_eq] at hy ⊢
    omega
  · have hpos := pos_of_mem_dmIds hx
    exact ⟨Int.le_of_lt hpos, congrArg List.reverse (filter_before hpos _)⟩

theorem serves_newerDms (hpeer : 0 < peerUid) (i : Nat) {afterId : Int} (hafter : 0 < afterId) :
    Serves (fun c => (dmIds t.toDmTables uid peerUid).filter (c < ·)) (0 < ·) afterId
      (newerDms t.toDmTables uid peerUid limit i afterId) := by
  obtain ⟨res, newer, hres, hwindow⟩ := dmHistory_newer t uid hpeer hafter (limit i)
  have hpage := hwindow.serves_after (fun c => (dmIds t.toDmTables uid peerUid).filter (c < ·))
    (0 < ·) id pairwise_dmIds ?_ rfl fun x hx => ⟨pos_of_mem_dmIds hx, rfl⟩
  · rw [Option.map_id] at hpage
    rw [newerDms, hres]
    exact hpage
  · intro y z hy hlt
    simp only [decide_eq_true_eq] at hy ⊢
    omega

theorem followOlderDms_eq (hpeer : 0 < peerUid) {fuel : Nat}
    (hfuel : (dmIds t.toDmTables uid peerUid).length < fuel) {beforeId : Int}
    (hbefore : 0 ≤ beforeId) :
    followOlderDms t.toDmTables uid peerUid limit fuel beforeId =
      some ((dmIds t.toDmTables uid peerUid).filter fun id => beforeId = 0 ∨ id < beforeId) := by
  rw [followOlderDms, follow_eq_some (fun i _ hc => serves_olderDms hpeer i hc) 0 hbefore,
    Option.map_some, reverse_reverse]
  rw [length_reverse]
  exact (length_filter_le _ _).trans_lt hfuel

theorem followNewerDms_eq (hpeer : 0 < peerUid) {fuel : Nat}
    (hfuel : (dmIds t.toDmTables uid peerUid).length < fuel) {afterId : Int} (hafter : 0 < afterId) :
    followNewerDms t.toDmTables uid peerUid limit fuel afterId =
      some ((dmIds t.toDmTables uid peerUid).filter (afterId < ·)) :=
  follow_eq_some (fun i _ hc => serves_newerDms hpeer i hc) 0 hafter
    ((length_filter_le _ _).trans_lt hfuel)

theorem followAroundDms_eq (hpeer : 0 < peerUid) {fuel : Nat}
    (hfuel : (dmIds t.toDmTables uid peerUid).length < fuel) {aroundId : Int}
    (haround : 0 < aroundId) (firstLimit : Int) :
    followAroundDms t.toDmTables uid peerUid limit fuel aroundId firstLimit =
        some (dmIds t.toDmTables uid peerUid) ∧
      ∃ res, dmHistory t.toDmTables uid { peerUid, aroundId, limit := firstLimit } = some res ∧
        (aroundId ∈ dmIds t.toDmTables uid peerUid → aroundId ∈ res.ids) := by
  obtain ⟨res, older, newer, hres, hwindow, htarget⟩ :=
    dmHistory_around t uid hpeer haround firstLimit
  have hbelow : ∀ x ∈ dmIds t.toDmTables uid peerUid,
      followOlderDms t.toDmTables uid peerUid limit fuel x =
        some ((dmIds t.toDmTables uid peerUid).filter (· < x)) := by
    intro x hx
    have hpos := pos_of_mem_dmIds hx
    rw [followOlderDms_eq hpeer hfuel (Int.le_of_lt hpos), filter_before hpos]
  obtain ⟨holder, hnewer⟩ := hwindow.around (followOlderDms t.toDmTables uid peerUid limit fuel)
    (followNewerDms t.toDmTables uid peerUid limit fuel) pairwise_dmIds hbelow fun x hx =>
      followNewerDms_eq hpeer hfuel (pos_of_mem_dmIds hx)
  refine ⟨?_, res, hres, htarget⟩
  rw [followAroundDms, hres, Option.bind_some, holder, hnewer, Option.bind_some, Option.map_some,
    ← hwindow.parts]

end Db

/-! ## What a page has -/

/-- The bytes of a page's messages, with tags and lengths. -/
def DmHistoryRes.messagesSize (res : DmHistoryRes) : Nat :=
  (res.messages.map fun m => messageSize 2 m.byteSizeLong).sum

theorem sum_messageSize_le {l : List DmHistoryMessage}
    (h : (l.map (·.byteSizeLong + 4)).sum ≤ maxResponseBytes) :
    (l.map fun m => messageSize 2 m.byteSizeLong).sum ≤ (l.map (·.byteSizeLong + 4)).sum := by
  induction l with
  | nil => exact Nat.le_refl _
  | cons m l ih =>
    rw [map_cons, sum_cons] at h
    have hsize : m.byteSizeLong < 2 ^ 21 := by
      rw [maxResponseBytes] at h
      omega
    have hlength := varintSize_le_three hsize
    have hrest := ih (by omega)
    have htag : tagSize 2 = 1 := rfl
    rw [map_cons, map_cons, sum_cons, sum_cons, messageSize, htag]
    omega

theorem isSlice_dmPageSlice (req : DmHistoryReq) (rows : List DmHistoryRow)
    (hasMore hasMoreAfter : Bool) :
    IsSlice (sizesOf rows) (dmPageSlice (sizesOf rows) req.mode (anchorOf req rows) hasMore
      hasMoreAfter) := by
  cases hmode : req.mode with
  | older => exact (dmPageSlice_older ..).choose_spec.2
  | newer => exact (dmPageSlice_newer ..).choose_spec.2
  | around =>
    have hanchor : sizesOf rows ≠ [] → anchorOf req rows < (sizesOf rows).length := by
      intro hne
      rw [anchorOf, if_pos hmode]
      refine anchorFrom_lt (length_pos_of_ne_nil hne) ?_
      rw [Nat.zero_add, length_map, length_sizesOf]
    obtain ⟨first, last, -, hslice, -⟩ := dmPageSlice_around hanchor hasMore hasMoreAfter
    exact hslice

/-- A page is within the budget, with its framing, or a single message. -/
theorem messagesSize_le {t : DmTables} {uid : Int} {req : DmHistoryReq} {res : DmHistoryRes}
    (h : dmHistory t uid req = some res) :
    res.messagesSize ≤ maxResponseBytes ∨ res.messages.length ≤ 1 := by
  have hpeer : 0 < req.peerUid := by
    rw [dmHistory] at h
    exact Int.not_le.1 (Option.ite_none_left_eq_some.1 h).1
  generalize hpage : fetchDmPage t uid req = page
  obtain ⟨rows, hasMore, hasMoreAfter⟩ := page
  have hslice := isSlice_dmPageSlice req rows hasMore hasMoreAfter
  generalize hs : dmPageSlice (sizesOf rows) req.mode (anchorOf req rows) hasMore hasMoreAfter = s
    at hslice
  obtain ⟨res', hres', -, -, -, hmessages⟩ := dmHistory_of_fetched hpeer hpage hs
  obtain rfl : res' = res := Option.some.inj (hres'.symm.trans h)
  rw [DmHistoryRes.messagesSize, hmessages]
  rcases hslice.within with hsum | hone
  · rw [sizesOf, ← map_drop, ← map_take] at hsum
    exact .inl ((sum_messageSize_le hsum).trans hsum)
  · exact .inr ((length_take_le _ _).trans hone)

theorem mem_selects {t : DmTables} {a b : Int} {p : Int → Bool} {r : DmHistoryRow}
    (h : r ∈ t.selectAsc a b p ∨ r ∈ t.selectDesc a b p) :
    ∃ m ∈ t.messages.rows, m.pair = pairOf a b ∧ t.dmRowFrom a b m = some r := by
  rcases h with h | h
  all_goals
    obtain ⟨m, hm, hr⟩ := mem_filterMap.1 h
    obtain ⟨hmem, hpair⟩ := mem_filter.1 ((mem_insertionSort _).1 hm)
    exact ⟨m, hmem, (of_decide_eq_true hpair).1, hr⟩

theorem mem_takePage {α : Type} {n : Nat} {l : List α} {x : α} (h : x ∈ (takePage n l).1) : x ∈ l := by
  rw [takePage_eq] at h
  exact mem_of_mem_take h

theorem mem_fetchDmPage {t : DmTables} {uid : Int} {req : DmHistoryReq} {r : DmHistoryRow}
    (h : r ∈ (fetchDmPage t uid req).1) :
    ∃ m ∈ t.messages.rows, m.pair = pairOf uid req.peerUid ∧
      t.dmRowFrom uid req.peerUid m = some r := by
  rw [fetchDmPage] at h
  dsimp only at h
  split at h
  · exact absurd h not_mem_nil
  split at h
  · rw [DmTables.fetchDmHistoryAround] at h
    rcases mem_append.1 h with h | h
    · exact mem_selects (.inr (mem_takePage (mem_reverse.1 h)))
    · exact mem_selects (.inl (mem_takePage h))
  split at h
  · exact mem_selects (.inl (mem_takePage h))
  · exact mem_selects (.inr (mem_takePage h))

theorem mem_messages {t : DmTables} {uid : Int} {req : DmHistoryReq} {res : DmHistoryRes}
    (h : dmHistory t uid req = some res) {x : DmHistoryMessage} (hx : x ∈ res.messages) :
    ∃ m ∈ t.messages.rows, m.pair = pairOf uid req.peerUid ∧
      (t.dmRowFrom uid req.peerUid m).map DmHistoryMessage.ofRow = some x := by
  rw [dmHistory] at h
  obtain ⟨-, h⟩ := Option.ite_none_left_eq_some.1 h
  rw [Option.some.injEq] at h
  subst h
  obtain ⟨r, hr, rfl⟩ := mem_map.1 (mem_of_mem_drop (mem_of_mem_take hx))
  obtain ⟨m, hm, hpair, hrow⟩ := mem_fetchDmPage hr
  exact ⟨m, hm, hpair, by rw [hrow, Option.map_some]⟩

/-- Following the pages from the newest back, from an id on, or around an id and then both ways,
    whatever the limits, ends having read every message of the pair once and in order. A window has
    its message; a page has messages of the pair only, within the budget or a single one. -/
theorem dm_history_gap_free (t : DmDb) (uid : Int) {peerUid : Int} (hpeer : 0 < peerUid)
    (limit : Nat → Int) {fuel : Nat} (hfuel : (dmIds t.toDmTables uid peerUid).length < fuel) :
    followOlderDms t.toDmTables uid peerUid limit fuel 0 = some (dmIds t.toDmTables uid peerUid) ∧
      (∀ afterId > 0, followNewerDms t.toDmTables uid peerUid limit fuel afterId =
        some ((dmIds t.toDmTables uid peerUid).filter (afterId < ·))) ∧
      (∀ aroundId > 0, ∀ firstLimit,
        followAroundDms t.toDmTables uid peerUid limit fuel aroundId firstLimit =
            some (dmIds t.toDmTables uid peerUid) ∧
          ∃ res, dmHistory t.toDmTables uid { peerUid, aroundId, limit := firstLimit } = some res ∧
            (aroundId ∈ dmIds t.toDmTables uid peerUid → aroundId ∈ res.ids)) ∧
      ∀ req res, dmHistory t.toDmTables uid req = some res →
        (∀ x ∈ res.messages, ∃ m ∈ t.messages.rows, m.pair = pairOf uid req.peerUid ∧
          (t.dmRowFrom uid req.peerUid m).map DmHistoryMessage.ofRow = some x) ∧
        (res.messagesSize ≤ maxResponseBytes ∨ res.messages.length ≤ 1) := by
  refine ⟨?_, fun afterId hafter => followNewerDms_eq hpeer hfuel hafter,
    fun aroundId haround firstLimit => followAroundDms_eq hpeer hfuel haround firstLimit,
    fun req res hres => ⟨fun x hx => mem_messages hres hx, messagesSize_le hres⟩⟩
  rw [followOlderDms_eq hpeer hfuel (Int.le_refl 0)]
  congr 1
  rw [List.filter_eq_self]
  exact fun _ _ => rfl

/-- Messages of the accounts 1 and 2, and one of 1 and 3. -/
def threeDms : DmDb where
  users uid := if 0 < uid ∧ uid < 4 then some "a" else none
  messages := ⟨[⟨2, 1, "", 2, "", [], 0, 0, 0, none⟩, ⟨9, 2, "", 1, "", [], 0, 0, 0, none⟩,
    ⟨7, 3, "", 1, "", [], 0, 0, 0, none⟩, ⟨4, 1, "", 2, "", [], 0, 0, 0, none⟩], by decide⟩
  conversations := .empty
  readCursors _ _ := 0
  positive := by decide
  accounts := by decide

/-- The conversation of two accounts, read one by one. -/
theorem dm_history_gap_free_three :
    followOlderDms threeDms.toDmTables 1 2 (fun _ => 1) 4 0 = some [2, 4, 9] :=
  (dm_history_gap_free threeDms 1 (by decide) (fun _ => 1) (by decide)).1

end Decibell.Central
