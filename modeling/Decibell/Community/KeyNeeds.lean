import Decibell.Community.KeyEscrow
import Decibell.Lib.Ordering
import Decibell.Lib.Paging
import Mathlib.Data.String.Basic

/-!
# Who lacks a channel key

Somebody who holds the keys of a channel asks the server which viewers lack which epochs, page by
page in the order of the uids. Who lacks something is told from how many blobs they have, since the
epochs run from 1 to the current one; what they lack is then looked up.
-/

namespace Decibell

open Lib List

/-- One viewer who lacks epochs. -/
structure KeyNeed where
  username : String
  uid : Uid
  epochs : List Nat
deriving DecidableEq, Repr

namespace Tables

/-! ## The request -/

/-- So many viewers on a page at most, and so many epochs that they lack. -/
def maxNeeds : Nat := 200
def maxNeededEpochs : Nat := 4096

def channelViewers (t : Tables) (env : KeyEnv) (channelId : String) : List (Uid × String) :=
  (t.members.rows.filter fun m => env.views m.uid channelId).map fun m => (m.uid, m.username)

/-- How many blobs a recipient has in a channel, in 32 bits. -/
def channelKeyHeldCount (t : Tables) (channelId : String) (uid : Uid) : Nat :=
  (t.keyBlobs.rows.filter fun b => b.channelId = channelId ∧ b.recipientUid = uid).length % 2 ^ 32

/-- The epochs without a blob for somebody, `perUid` at most. -/
def channelKeyMissingEpochsFor (t : Tables) (channelId : String) (uid : Uid) (perUid : Nat) :
    List Nat :=
  ((((t.epochsOf channelId).insertionSort (· ≤ ·)).filter fun e => ! t.keyBlobs.rows.any fun b =>
    b.channelId = channelId ∧ b.epoch = e ∧ b.recipientUid = uid).take perUid).map fun e =>
      (e % 2 ^ 32).toNat

def viewerLe (v w : Uid × String) : Prop := v.1 < w.1 ∨ v.1 = w.1 ∧ v.2 ≤ w.2

instance : DecidableRel viewerLe := fun v w =>
  inferInstanceAs (Decidable (v.1 < w.1 ∨ v.1 = w.1 ∧ v.2 ≤ w.2))

/-- Those who refused `uid`'s blobs, while another holds the epoch. -/
def needsRefusing (t : Tables) (channelId : String) (uid : Uid) : List Uid :=
  (t.channelKeyRefusingRecipients channelId uid).filter
    (t.channelKeyUnrefusedHolderExists channelId (t.channelKeyCurrentEpoch channelId))

/-- The accounts past the cursor, without the caller, with fewer blobs than epochs. -/
def needsFill (t : Tables) (channelId : String) (uid : Uid) (after : Int) (v : Uid) : Bool :=
  0 < v ∧ after < v ∧ v ≠ uid ∧
    t.channelKeyHeldCount channelId v < t.channelKeyCurrentEpoch channelId ∧
    v ∉ t.needsRefusing channelId uid

/-- Fills a page, and whether more viewers follow; who lacks more than a page gets the rest later.
    -/
def fillNeeds (missing : Uid → Nat) (page : List (Uid × String)) (epochs : Nat) :
    List (Uid × String) → List (Uid × String) × Bool
  | [] => (page, false)
  | v :: viewers =>
    let missed := min (missing v.1) maxNeededEpochs
    if page.length ≥ maxNeeds ∨ ! page.isEmpty ∧ epochs + missed > maxNeededEpochs then (page, true)
    else fillNeeds missing (page ++ [v]) (epochs + missed) viewers

/-- The needs of the viewers past `after`, and whether there are more. -/
def channelKeysNeeds (t : Tables) (env : KeyEnv) (channelId : String) (uid : Uid) (after : Int) :
    List KeyNeed × Bool :=
  let current := t.channelKeyCurrentEpoch channelId
  if current = 0 then ([], false)
  else
    let viewers := (t.channelViewers env channelId).insertionSort viewerLe
    let page := fillNeeds (fun v => current - t.channelKeyHeldCount channelId v) [] 0
      (viewers.filter fun v => t.needsFill channelId uid after v.1)
    (page.1.filterMap fun v =>
      match t.channelKeyMissingEpochsFor channelId v.1 maxNeededEpochs with
      | [] => none
      | epochs => some ⟨v.2, v.1, epochs⟩, page.2)

/-- The reply to a request for needs, if one may ask. -/
def channelKeysReq (t : Tables) (env : KeyEnv) (channelId : String) (uid : Uid) (after : Int) :
    Option (List KeyNeed × Bool) :=
  if ! env.views uid channelId then none
  else match env.getChannel channelId with
  | none => none
  | some ch =>
    if ch.type ≠ .text then none
    else if after < 0 then some ([], false)
    else some (t.channelKeysNeeds env channelId uid after)

/-! ## What somebody lacks -/

/-- The epochs somebody lacks, in order. -/
def lackedEpochs (t : Tables) (channelId : String) (uid : Uid) : List Nat :=
  ((List.range (t.channelKeyCurrentEpoch channelId)).map (· + 1)).filter fun e =>
    ! t.channelKeyHolds channelId e uid

variable {t : Tables} {channelId : String} {uid : Uid}

theorem mem_lackedEpochs {e : Nat} : e ∈ t.lackedEpochs channelId uid ↔
    1 ≤ e ∧ e ≤ t.channelKeyCurrentEpoch channelId ∧ t.channelKeyHolds channelId e uid = false := by
  rw [lackedEpochs, mem_filter, mem_map, Bool.not_eq_true']
  constructor
  · rintro ⟨⟨i, hi, rfl⟩, hholds⟩
    rw [mem_range] at hi
    exact ⟨by omega, by omega, hholds⟩
  · rintro ⟨hpos, hle, hholds⟩
    exact ⟨⟨e - 1, mem_range.2 (by omega), by omega⟩, hholds⟩

theorem nodup_lackedEpochs (t : Tables) (channelId : String) (uid : Uid) :
    (t.lackedEpochs channelId uid).Nodup :=
  (nodup_range.map fun _ _ h => Nat.succ_inj.1 h).filter _

theorem insertionSort_epochsOf (h : EscrowState.Gapless t) (channelId : String) :
    (t.epochsOf channelId).insertionSort (· ≤ ·) =
      (List.range (t.channelKeyCurrentEpoch channelId)).map fun i => ((i + 1 : Nat) : Int) := by
  have hinj : ∀ i j : Nat, ((i + 1 : Nat) : Int) = ((j + 1 : Nat) : Int) → i = j := by omega
  have hnodup : (t.epochsOf channelId).Nodup := by
    have hrows := (t.keyEpochs.nodup.of_map _).filter fun r => decide (r.channelId = channelId)
    refine hrows.map_on fun r hr r' hr' he => t.keyEpochs.eq_of_key (mem_filter.1 hr).1
      (mem_filter.1 hr').1 (Prod.ext ?_ he)
    exact (of_decide_eq_true (mem_filter.1 hr).2).trans
      (of_decide_eq_true (mem_filter.1 hr').2).symm
  refine insertionSort_eq_of_perm ((perm_ext_iff_of_nodup hnodup
    (nodup_range.map hinj)).2 fun e => ?_) ?_ fun _ _ _ _ hab hba => Int.le_antisymm hab hba
  · rw [h.1 channelId e, mem_map]
    constructor
    · exact fun he => ⟨e.toNat - 1, mem_range.2 (by omega), by omega⟩
    · rintro ⟨i, hi, rfl⟩
      rw [mem_range] at hi
      omega
  · rw [pairwise_map]
    exact pairwise_lt_range.imp fun hij => by omega

theorem channelKeyMissingEpochsFor_eq (h : EscrowState.Gapless t) (channelId : String) (uid : Uid)
    (perUid : Nat) :
    t.channelKeyMissingEpochsFor channelId uid perUid =
      (t.lackedEpochs channelId uid).take perUid := by
  rw [channelKeyMissingEpochsFor, insertionSort_epochsOf h, lackedEpochs, filter_map,
    filter_map, ← map_take, ← map_take, map_map]
  refine map_congr_left fun i hi => ?_
  have hlt := channelKeyCurrentEpoch_lt t channelId
  have hmem := mem_range.1 (mem_filter.1 (mem_of_mem_take hi)).1
  change ((((i + 1 : Nat) : Int)) % 2 ^ 32).toNat = i + 1
  omega

theorem heldCount_add_lacked (h : EscrowState.Gapless t) (channelId : String) (uid : Uid) :
    t.channelKeyHeldCount channelId uid + (t.lackedEpochs channelId uid).length =
      t.channelKeyCurrentEpoch channelId := by
  let held := t.keyBlobs.rows.filter fun b => b.channelId = channelId ∧ b.recipientUid = uid
  let epochs := (List.range (t.channelKeyCurrentEpoch channelId)).map (· + 1)
  have hheld : ∀ b ∈ held, b ∈ t.keyBlobs.rows ∧ b.channelId = channelId ∧ b.recipientUid = uid :=
    fun b hb => ⟨(mem_filter.1 hb).1, by simpa using (mem_filter.1 hb).2⟩
  have hcount : held.length =
      (epochs.filter fun e => t.channelKeyHolds channelId e uid).length := by
    have hinj : ∀ i j : Nat, ((i + 1 : Nat) : Int) = ((j + 1 : Nat) : Int) → i = j := by omega
    have hblobs : (held.map (·.epoch)).Nodup := by
      refine List.Nodup.map_on (fun b hb b' hb' he => ?_) ((t.keyBlobs.nodup.of_map _).filter _)
      obtain ⟨hb, hch, huid⟩ := hheld b hb
      obtain ⟨hb', hch', huid'⟩ := hheld b' hb'
      exact t.keyBlobs.eq_of_key hb hb' (Prod.ext (hch.trans hch'.symm)
        (Prod.ext he (huid.trans huid'.symm)))
    have hnodup : ((epochs.filter fun e => t.channelKeyHolds channelId e uid).map
        (Nat.cast : Nat → Int)).Nodup :=
      ((nodup_range.map fun _ _ h => Nat.succ_inj.1 h).filter _).map fun _ _ h =>
        Int.ofNat_inj.1 h
    have hperm := (perm_ext_iff_of_nodup hblobs hnodup).2 fun e => ?_
    · have hlength := hperm.length_eq
      rwa [length_map, length_map] at hlength
    rw [mem_map, mem_map]
    constructor
    · rintro ⟨b, hb, rfl⟩
      obtain ⟨hb, hch, huid⟩ := hheld b hb
      have hmem := h.2 b hb
      rw [hch, h.1] at hmem
      refine ⟨b.epoch.toNat, mem_filter.2 ⟨mem_map.2 ⟨b.epoch.toNat - 1,
        mem_range.2 (by omega), by omega⟩, ?_⟩, by omega⟩
      have hcast : ((b.epoch.toNat : Nat) : Int) = b.epoch := by omega
      exact any_eq_true.2 ⟨b, hb, by simp [hch, huid, hcast]⟩
    · rintro ⟨e, he, rfl⟩
      obtain ⟨b, hb, hholds⟩ := any_eq_true.1 (mem_filter.1 he).2
      obtain ⟨hch, he', huid⟩ := of_decide_eq_true hholds
      exact ⟨b, mem_filter.2 ⟨hb, by simp [hch, huid]⟩, he'⟩
  have hsum := length_eq_length_filter_add (l := epochs)
    fun e => t.channelKeyHolds channelId e uid
  have hlength : epochs.length = t.channelKeyCurrentEpoch channelId := by
    rw [length_map, length_range]
  have hlt := channelKeyCurrentEpoch_lt t channelId
  have hle : held.length ≤ t.channelKeyCurrentEpoch channelId := by
    rw [hcount, ← hlength, hsum]
    exact Nat.le_add_right _ _
  have hmod : t.channelKeyHeldCount channelId uid = held.length :=
    Nat.mod_eq_of_lt (Nat.lt_of_le_of_lt hle hlt)
  rw [hmod, hcount, lackedEpochs, ← hsum, hlength]

/-! ## A page -/

/-- A page is where the viewers start; more follow if it is not all of them. -/
theorem fillNeeds_spec (missing : Uid → Nat) (viewers page : List (Uid × String)) (epochs : Nat) :
    ∃ taken tail, viewers = taken ++ tail ∧
      fillNeeds missing page epochs viewers = (page ++ taken, decide (tail ≠ [])) ∧
      (tail ≠ [] → page ++ taken ≠ []) := by
  induction viewers generalizing page epochs with
  | nil => exact ⟨[], [], rfl, by rw [fillNeeds, append_nil]; rfl, fun h => absurd rfl h⟩
  | cons v viewers ih =>
    rw [fillNeeds]
    split
    · next hfull =>
      refine ⟨[], v :: viewers, rfl, by rw [append_nil]; rfl, fun _ => ?_⟩
      rintro hnil
      rw [append_nil] at hnil
      subst hnil
      rcases hfull with hlen | ⟨hne, _⟩
      · exact absurd hlen (by decide)
      · exact nomatch hne
    · obtain ⟨taken, tail, hviewers, hfill, hne⟩ :=
        ih (page ++ [v]) (epochs + min (missing v.1) maxNeededEpochs)
      refine ⟨v :: taken, tail, by rw [hviewers]; rfl, ?_, ?_⟩
      · rw [hfill, append_assoc]
        rfl
      · rwa [append_assoc] at hne

theorem pairwise_viewers {viewers : List (Uid × String)} (h : (viewers.map (·.1)).Nodup) :
    (viewers.insertionSort viewerLe).Pairwise fun v w => v.1 < w.1 := by
  have htotal : Std.Total viewerLe := ⟨fun v w => by
    rcases lt_trichotomy v.1 w.1 with hlt | heq | hgt
    · exact .inl (.inl hlt)
    · rcases le_total v.2 w.2 with hle | hge
      · exact .inl (.inr ⟨heq, hle⟩)
      · exact .inr (.inr ⟨heq.symm, hge⟩)
    · exact .inr (.inl hgt)⟩
  have htrans : IsTrans (Uid × String) viewerLe := ⟨fun u v w huv hvw => by
    rcases huv with huv | ⟨huv, huv'⟩ <;> rcases hvw with hvw | ⟨hvw, hvw'⟩
    · exact .inl (huv.trans hvw)
    · exact .inl (hvw ▸ huv)
    · exact .inl (huv ▸ hvw)
    · exact .inr ⟨huv.trans hvw, huv'.trans hvw'⟩⟩
  have hsorted := pairwise_insertionSort viewerLe viewers
  have hne : (viewers.insertionSort viewerLe).Pairwise fun v w => v.1 ≠ w.1 := by
    have hnodup := ((perm_insertionSort viewerLe viewers).map (·.1)).nodup_iff.2 h
    exact pairwise_map.1 hnodup
  refine (hsorted.and hne).imp fun hvw => ?_
  exact hvw.1.elim id fun heq => absurd heq.1 hvw.2

theorem nodup_channelViewers (t : Tables) (env : KeyEnv) (channelId : String) :
    ((t.channelViewers env channelId).map (·.1)).Nodup := by
  rw [channelViewers, map_map]
  exact t.members.nodup.sublist (filter_sublist.map DbMember.uid)

/-- The needs past a cursor: who lacks something, in order, with the first epochs they lack, and
    nobody left out. -/
structure NeedsPage (t : Tables) (env : KeyEnv) (channelId : String) (uid : Uid) (after : Int)
    (needs : List KeyNeed) (more : Bool) : Prop where
  sorted : needs.Pairwise fun n n' => n.uid < n'.uid
  sound : ∀ n ∈ needs, after < n.uid ∧ 0 < n.uid ∧ n.uid ≠ uid ∧
    (n.uid, n.username) ∈ t.channelViewers env channelId ∧
    n.epochs = (t.lackedEpochs channelId n.uid).take maxNeededEpochs ∧ n.epochs ≠ []
  complete : ∀ v ∈ t.channelViewers env channelId, after < v.1 → 0 < v.1 → v.1 ≠ uid →
    t.lackedEpochs channelId v.1 ≠ [] → v.1 ∉ t.needsRefusing channelId uid →
    (∃ n ∈ needs, n.uid = v.1) ∨ more = true ∧ ∀ n ∈ needs, n.uid < v.1
  progress : more = true → needs ≠ []

theorem needs_of_gapless (h : EscrowState.Gapless t) (env : KeyEnv) (channelId : String)
    (uid : Uid) (after : Int) :
    NeedsPage t env channelId uid after (t.channelKeysNeeds env channelId uid after).1
      (t.channelKeysNeeds env channelId uid after).2 := by
  have hcount := heldCount_add_lacked h channelId
  rw [channelKeysNeeds]
  dsimp only
  split
  · next hzero =>
    refine ⟨.nil, fun _ hn => absurd hn not_mem_nil, fun v _ _ _ _ hlacked => ?_,
      fun hmore => nomatch hmore⟩
    have hlen := hcount v.1
    have hpos := length_pos_of_ne_nil hlacked
    omega
  · generalize hviewers : (t.channelViewers env channelId).insertionSort viewerLe = viewers
    obtain ⟨taken, tail, hsplit, hfill, hne⟩ := fillNeeds_spec
      (fun v => t.channelKeyCurrentEpoch channelId - t.channelKeyHeldCount channelId v)
      (viewers.filter fun v => t.needsFill channelId uid after v.1) [] 0
    have hmem : ∀ v, v ∈ viewers ↔ v ∈ t.channelViewers env channelId :=
      fun v => hviewers ▸ mem_insertionSort viewerLe
    have hsorted : (taken ++ tail).Pairwise fun v w => v.1 < w.1 := by
      rw [← hsplit, ← hviewers]
      exact (pairwise_viewers (nodup_channelViewers t env channelId)).filter _
    have hfit : ∀ v, (t.needsFill channelId uid after v = true ↔ 0 < v ∧ after < v ∧ v ≠ uid ∧
        t.lackedEpochs channelId v ≠ [] ∧ v ∉ t.needsRefusing channelId uid) := by
      intro v
      have hlen := hcount v
      rw [needsFill, decide_eq_true_iff, ← length_pos_iff]
      constructor
      · exact fun ⟨hpos, hafter, hself, hlt, href⟩ => ⟨hpos, hafter, hself, by omega, href⟩
      · exact fun ⟨hpos, hafter, hself, hlt, href⟩ => ⟨hpos, hafter, hself, by omega, href⟩
    -- Nobody on the page is dropped: they all lack an epoch.
    have hneed : ∀ v ∈ taken, (match t.channelKeyMissingEpochsFor channelId v.1 maxNeededEpochs with
        | [] => none
        | epochs => some (⟨v.2, v.1, epochs⟩ : KeyNeed)) =
          some ⟨v.2, v.1, (t.lackedEpochs channelId v.1).take maxNeededEpochs⟩ := by
      intro v hv
      have hin : v ∈ viewers.filter fun v => t.needsFill channelId uid after v.1 :=
        hsplit ▸ mem_append_left tail hv
      have hlacked := ((hfit v.1).1 (mem_filter.1 hin).2).2.2.2.1
      rw [channelKeyMissingEpochsFor_eq h]
      split
      · next hnil =>
        rcases take_eq_nil_iff.1 hnil with hzero | hnil
        · exact absurd hzero (by decide)
        · exact absurd hnil hlacked
      · rfl
    have hneeds : (taken.filterMap fun v =>
        match t.channelKeyMissingEpochsFor channelId v.1 maxNeededEpochs with
        | [] => none
        | epochs => some (⟨v.2, v.1, epochs⟩ : KeyNeed)) =
          taken.map fun v => ⟨v.2, v.1, (t.lackedEpochs channelId v.1).take maxNeededEpochs⟩ := by
      rw [filterMap_congr hneed, filterMap_eq_map']
    rw [hfill, nil_append]
    dsimp only
    rw [hneeds]
    rw [nil_append] at hne
    refine ⟨?_, ?_, ?_, ?_⟩
    · exact pairwise_map.2 (pairwise_append.1 hsorted).1
    · intro n hn
      obtain ⟨v, hv, rfl⟩ := mem_map.1 hn
      have hin : v ∈ viewers.filter fun v => t.needsFill channelId uid after v.1 :=
        hsplit ▸ mem_append_left tail hv
      obtain ⟨hpos, hafter, hself, hlacked, -⟩ := (hfit v.1).1 (mem_filter.1 hin).2
      refine ⟨hafter, hpos, hself, (hmem v).1 (mem_filter.1 hin).1, rfl, fun hnil => ?_⟩
      exact (take_eq_nil_iff.1 hnil).elim (by decide) hlacked
    · intro v hv hafter hpos hself hlacked href
      have hin : v ∈ taken ++ tail := by
        rw [← hsplit]
        exact mem_filter.2 ⟨(hmem v).2 hv, (hfit v.1).2 ⟨hpos, hafter, hself, hlacked, href⟩⟩
      rcases mem_append.1 hin with hin | hin
      · exact .inl ⟨_, mem_map_of_mem hin, rfl⟩
      · refine .inr ⟨decide_eq_true (ne_nil_of_mem hin), fun n hn => ?_⟩
        obtain ⟨w, hw, rfl⟩ := mem_map.1 hn
        exact (pairwise_append.1 hsorted).2.2 w hw v hin
    · exact fun hmore => mt map_eq_nil_iff.1 (hne (of_decide_eq_true hmore))

end Tables
end Decibell
