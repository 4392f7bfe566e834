import Decibell.Lib.Ordering
import Decibell.Lib.Table
import Mathlib.Data.List.Induction

/-!
# Merging a fetched page of stored messages into a loaded slice

A slice is its stored rows by id ascending, then the rows with no id yet: the bubbles of messages
that are being sent. A page is a contiguous run of stored rows, in any order.

* `settledNonces` are the bubbles that a page confirms.
-/

namespace Decibell.Client

open Lib List

/-- The fields the merge reads. -/
structure MergeRow where
  id : Option Int := none
  nonce : Option String := none
  senderUid : Option Int := none
  content : String := ""
  replyTo : Option Int := none
  editedAt : Option Int := none
  encrypted : Bool := false
  decryptError : Option String := none
  /-- Of a bubble: the newest stored id when it was sent. -/
  sentAfterId : Option Int := none
deriving DecidableEq, Inhabited

/-- A row's server id, 0 for one that has none yet. -/
def realId (m : MergeRow) : Nat := (m.id.getD 0).toNat

/-- The nonce of a row, if it has one that is not empty. -/
def nonceOf (m : MergeRow) : Option String := m.nonce.filter (· ≠ "")

/-- White space and line ends, as `trim` cuts them off. -/
def isSpace (c : Char) : Bool :=
  c.val ∈ [0x9, 0xA, 0xB, 0xC, 0xD, 0x20, 0xA0, 0x1680, 0x2028, 0x2029, 0x202F, 0x205F, 0x3000,
    0xFEFF] || (0x2000 ≤ c.val && c.val ≤ 0x200A)

/-- `!content.trim()`. -/
def isBlank (content : String) : Bool := content.toList.all isSpace

/-! ## The bubbles that a page confirms -/

/-- The rows that wait for their confirmation. -/
def pendingRows (slice : List MergeRow) : List MergeRow :=
  slice.filter fun m => realId m = 0 && (nonceOf m).isSome

/-- What is known after some rows of a page. -/
structure Claims where
  /-- The nonces that are not confirmed yet. -/
  waiting : List String
  out : List String := []
  /-- Rows of ours without a nonce, that the slice does not have. -/
  unclaimed : List MergeRow := []

/-- A row of the page; its nonce, if any, confirms that bubble only. -/
def readRow (ownUid : Int) (known : List Nat) (c : Claims) (r : MergeRow) : Claims :=
  if realId r = 0 then c
  else
    match nonceOf r with
    | some nonce =>
      if nonce ∈ c.waiting then
        { c with waiting := c.waiting.filter (· ≠ nonce), out := nonce :: c.out }
      else c
    | none =>
      if 0 < ownUid ∧ r.senderUid = some ownUid ∧ realId r ∉ known then
        { c with unclaimed := c.unclaimed ++ [r] }
      else c

/-- A row without a nonce repeats a bubble, and is newer than it. -/
def repeats (m r : MergeRow) : Bool :=
  m.sentAfterId.getD 0 < realId r && r.content = m.content && r.replyTo.getD 0 = m.replyTo.getD 0

/-- A bubble claims the oldest unclaimed row that repeats it: the claimed ids, and the bubbles'
    nonces. -/
def claim (waiting : List String) (unclaimed : List MergeRow) (s : List Nat × List String)
    (m : MergeRow) : List Nat × List String :=
  match nonceOf m with
  | none => s
  | some nonce =>
    if nonce ∉ waiting || isBlank m.content then s
    else
      match unclaimed.find? fun r => realId r ∉ s.1 && repeats m r with
      | some r => (realId r :: s.1, nonce :: s.2)
      | none => s

/-- The bubbles (by nonce) that a page confirms. -/
def settledNonces (slice page : List MergeRow) (ownUid : Int) : List String :=
  let pending := pendingRows slice
  if pending = [] then []
  else
    let known := (slice.map realId).filter (0 < ·)
    let c := page.foldl (readRow ownUid known) { waiting := pending.filterMap nonceOf }
    if c.waiting = [] ∨ c.unclaimed = [] then c.out
    else
      let unclaimed := c.unclaimed.insertionSort fun a b => realId a ≤ realId b
      (pending.foldl (claim c.waiting unclaimed) ([], c.out)).2

/-! ## The merge -/

/-- The new slice, and what the page was to the old one. -/
structure MergedPage (T : Type) where
  list : List T
  /-- The page's rows went in. -/
  applied : Bool
  /-- The page lay above the slice, and replaced its stored rows. -/
  replaced : Bool
  /-- The page reached below the slice's oldest row. -/
  headExtended : Bool
  /-- The slice is at the present now. -/
  reachedNewest : Bool

/-- A row is as it was. -/
def unchanged (a b : MergeRow) : Bool :=
  a.content = b.content && a.editedAt.getD 0 = b.editedAt.getD 0 && a.encrypted = b.encrypted &&
    a.decryptError.getD "" = b.decryptError.getD ""

section Merge

variable {T : Type} (row : T → MergeRow)

def idOf (m : T) : Nat := realId (row m)

def sortById (l : List T) : List T := l.insertionSort fun a b => idOf row a ≤ idOf row b

def stored (slice : List T) : List T := slice.filter fun m => 0 < idOf row m

def bubbles (slice : List T) : List T := slice.filter fun m => idOf row m = 0

/-- A bubble is among the settled ones. -/
def isSettled (settled : List String) (m : T) : Bool := (nonceOf (row m)).any (· ∈ settled)

/-- The slice's object for an unchanged row, else the page's. -/
def keepRow (old : Table (idOf row)) (r : T) : T :=
  match old.find? (idOf row r) with
  | some prev => if unchanged (row prev) (row r) then prev else r
  | none => r

/-- Stored rows outside `[lo, hi]` (no end if `hi` is `none`), the page's inside, then the tail. -/
def refresh (stored rows : List T) (lo : Nat) (hi : Option Nat) (tail : List T) : List T :=
  let old : Table (idOf row) := .ofRows stored
  let out := stored.filter fun m => idOf row m < lo || hi.any (· < idOf row m)
  sortById row (out ++ rows.map (keepRow row old)) ++ tail

/-- The slice as it is, but for the bubbles that the page confirms. -/
def keepSlice (list : List T) (applied headExtended reachedNewest : Bool) : MergedPage T where
  list
  applied
  replaced := false
  headExtended
  reachedNewest

/-- A page of the rows above `afterId`. -/
def mergeAbove (kept stored rows tail : List T) (afterId : Nat) : MergedPage T :=
  let storedOldest := (stored.head?.map (idOf row)).getD 0
  let storedNewest := (stored.getLast?.map (idOf row)).getD 0
  -- Above the newest row there may be a gap.
  if stored = [] ∨ storedNewest < afterId then keepSlice kept false false false
  else
    -- Rows below the oldest one could hang under it past a gap.
    let rows := rows.filter fun r => storedOldest ≤ idOf row r
    match rows.getLast? with
    | none => keepSlice kept true false false
    | some last =>
      { list := refresh row stored rows (max (afterId + 1) storedOldest) (some (idOf row last)) tail
        applied := true
        replaced := false
        headExtended := false
        reachedNewest := false }

def mergeOlder (kept stored rows tail : List T) (latest : Bool) : MergedPage T :=
  let storedOldest := (stored.head?.map (idOf row)).getD 0
  let storedNewest := (stored.getLast?.map (idOf row)).getD 0
  match rows.head?, rows.getLast? with
  | some first, some last =>
    if stored = [] ∨ storedNewest < idOf row first then
      { list := rows ++ tail
        applied := true
        replaced := stored ≠ []
        headExtended := true
        reachedNewest := true }
    else
      { list := refresh row stored rows (idOf row first)
          (if latest then none else some (idOf row last)) tail
        applied := true
        replaced := false
        headExtended := idOf row first < storedOldest
        reachedNewest := latest || storedNewest ≤ idOf row last }
  | _, _ =>
    -- The newest page of an empty channel, or nothing below the request's boundary.
    if latest then
      { list := tail
        applied := true
        replaced := stored ≠ []
        headExtended := true
        reachedNewest := true }
    else keepSlice kept true true (stored = [])

/-- Merges a page into a slice: the rows above `afterId`, an older page, or the newest one if
    `latest`. Rows of ids in `skip` are never added. -/
def mergeStoredPage (slice page : List T) (ownUid : Int) (afterId : Nat) (skip : List Nat)
    (latest : Bool) : MergedPage T :=
  let settled := settledNonces (slice.map row) (page.map row) ownUid
  let tail := (bubbles row slice).filter fun m => !isSettled row settled m
  let stored := stored row slice
  let byId : Table (idOf row) :=
    .ofRows (page.filter fun m => 0 < idOf row m && idOf row m ∉ skip)
  let rows := sortById row byId.rows
  let kept := if settled ≠ [] then stored ++ tail else slice
  if 0 < afterId then mergeAbove row kept stored rows tail afterId
  else mergeOlder row kept stored rows tail latest

end Merge

/-! ## What settles a bubble -/

/-- A row confirms a bubble: it has its nonce, or is a new row of ours without one that repeats it.
    -/
def Confirms (ownUid : Int) (known : List Nat) (m r : MergeRow) : Prop :=
  0 < realId r ∧ (nonceOf r = nonceOf m ∨
    nonceOf r = none ∧ r.senderUid = some ownUid ∧ realId r ∉ known ∧ repeats m r = true)

/-- The rows that a bubble may claim. -/
def claimable (ownUid : Int) (known : List Nat) (r : MergeRow) : Bool :=
  0 < realId r && (nonceOf r).isNone && 0 < ownUid && r.senderUid = some ownUid && realId r ∉ known

/-- What is known after the rows of a page. -/
structure ReadRows (ownUid : Int) (known : List Nat) (nonces : List String) (page : List MergeRow)
    (c : Claims) : Prop where
  waiting : ∀ n, n ∈ c.waiting ↔ n ∈ nonces ∧ n ∉ c.out
  out : ∀ n, n ∈ c.out ↔ n ∈ nonces ∧ ∃ r ∈ page, 0 < realId r ∧ nonceOf r = some n
  unclaimed : c.unclaimed = page.filter (claimable ownUid known)

variable {ownUid : Int} {known : List Nat} {nonces : List String} {slice page : List MergeRow}

theorem ReadRows.step {c : Claims} (h : ReadRows ownUid known nonces page c) (r : MergeRow) :
    ReadRows ownUid known nonces (page ++ [r]) (readRow ownUid known c r) := by
  have hout : ∀ n, (∃ r' ∈ page ++ [r], 0 < realId r' ∧ nonceOf r' = some n) ↔
      (∃ r' ∈ page, 0 < realId r' ∧ nonceOf r' = some n) ∨ 0 < realId r ∧ nonceOf r = some n := by
    intro n
    simp only [mem_append, mem_singleton, or_and_right, exists_or, exists_eq_left]
  rw [readRow]
  split
  · -- It is not stored yet.
    rename_i hid
    have hno : claimable ownUid known r = false := by rw [claimable, hid]; rfl
    refine ⟨h.waiting, fun n => ?_, ?_⟩
    · rw [h.out, hout, hid]
      simp only [Nat.lt_irrefl, false_and, or_false]
    · rw [h.unclaimed, filter_append, filter_cons_of_neg (by simp [hno]), filter_nil,
        append_nil]
  · rename_i hid
    have hid' : 0 < realId r := Nat.pos_of_ne_zero hid
    cases hnonce : nonceOf r with
    | some nonce =>
      -- It has a nonce, and confirms the bubble that has it.
      have hunclaimed : c.unclaimed = (page ++ [r]).filter (claimable ownUid known) := by
        rw [h.unclaimed, filter_append, filter_cons_of_neg, filter_nil,
          append_nil]
        simp [claimable, hnonce]
      dsimp only
      split
      · rename_i hwaiting
        have hnew := (h.waiting nonce).1 hwaiting
        refine ⟨fun n => ?_, fun n => ?_, hunclaimed⟩
        · rw [mem_filter, h.waiting, decide_eq_true_eq, mem_cons, not_or, and_assoc]
          exact and_congr_right fun _ => and_comm
        · rw [mem_cons, h.out, hout, hnonce, Option.some.injEq]
          constructor
          · rintro (rfl | ⟨hn, hr⟩)
            · exact ⟨hnew.1, .inr ⟨hid', rfl⟩⟩
            · exact ⟨hn, .inl hr⟩
          · rintro ⟨hn, hr | ⟨-, rfl⟩⟩
            · exact .inr ⟨hn, hr⟩
            · exact .inl rfl
      · rename_i hwaiting
        refine ⟨h.waiting, fun n => ?_, hunclaimed⟩
        rw [h.out, hout, hnonce, Option.some.injEq]
        refine ⟨fun hold => ⟨hold.1, .inl hold.2⟩, ?_⟩
        rintro ⟨hn, hr | ⟨-, rfl⟩⟩
        · exact ⟨hn, hr⟩
        · -- Nothing waits for it: another row has confirmed the bubble.
          by_contra hcontra
          exact hwaiting ((h.waiting nonce).2 ⟨hn, fun hmem => hcontra ((h.out nonce).1 hmem)⟩)
    | none =>
      have hsame : ∀ n, (∃ r' ∈ page ++ [r], 0 < realId r' ∧ nonceOf r' = some n) ↔
          ∃ r' ∈ page, 0 < realId r' ∧ nonceOf r' = some n := by
        intro n
        rw [hout, hnonce]
        simp only [reduceCtorEq, and_false, or_false]
      dsimp only
      split
      · rename_i hours
        refine ⟨h.waiting, fun n => (h.out n).trans (and_congr_right fun _ => (hsame n).symm), ?_⟩
        dsimp only
        rw [h.unclaimed, filter_append, filter_cons_of_pos, filter_nil]
        simp [claimable, hnonce, hid', hours]
      · rename_i hours
        refine ⟨h.waiting, fun n => (h.out n).trans (and_congr_right fun _ => (hsame n).symm), ?_⟩
        rw [h.unclaimed, filter_append, filter_cons_of_neg, filter_nil,
          append_nil]
        simp only [claimable, Bool.and_eq_true, decide_eq_true_eq]
        rintro ⟨⟨⟨⟨-, -⟩, hown⟩, hsender⟩, hnew⟩
        exact hours ⟨hown, hsender, hnew⟩

theorem readRows_spec (nonces : List String) (page : List MergeRow) :
    ReadRows ownUid known nonces page
      (page.foldl (readRow ownUid known) { waiting := nonces }) := by
  induction page using List.reverseRecOn with
  | nil => exact ⟨fun n => by simp, fun n => by simp, rfl⟩
  | append_singleton page r ih =>
    rw [foldl_append]
    exact ih.step r

/-- The claims of some bubbles: which row for which nonce. -/
structure Claimed (waiting : List String) (unclaimed pending : List MergeRow) (out : List String)
    (s : List Nat × List String) (pairs : List (String × Nat)) : Prop where
  nonces : s.2 = pairs.map (·.1) ++ out
  rows : s.1 = pairs.map (·.2)
  apart : (pairs.map (·.2)).Nodup
  claims : ∀ p ∈ pairs, ∃ m ∈ pending, nonceOf m = some p.1 ∧
    ∃ r ∈ unclaimed, realId r = p.2 ∧ repeats m r = true

variable {waiting out : List String} {unclaimed pending : List MergeRow}

theorem Claimed.step {s : List Nat × List String} {pairs : List (String × Nat)}
    (h : Claimed waiting unclaimed pending out s pairs) (m : MergeRow) :
    ∃ pairs, Claimed waiting unclaimed (pending ++ [m]) out (claim waiting unclaimed s m)
      pairs := by
  have hclaims : ∀ p ∈ pairs, ∃ m' ∈ pending ++ [m], nonceOf m' = some p.1 ∧
      ∃ r ∈ unclaimed, realId r = p.2 ∧ repeats m' r = true := fun p hp =>
    let ⟨m', hm', hrest⟩ := h.claims p hp
    ⟨m', mem_append_left _ hm', hrest⟩
  have hkept : ∃ pairs, Claimed waiting unclaimed (pending ++ [m]) out s pairs :=
    ⟨pairs, h.nonces, h.rows, h.apart, hclaims⟩
  rw [claim]
  cases hnonce : nonceOf m with
  | none => exact hkept
  | some nonce =>
    dsimp only
    split
    · exact hkept
    · cases hfind : unclaimed.find? fun r => realId r ∉ s.1 && repeats m r with
      | none => exact hkept
      | some r =>
        have hr := mem_of_find?_eq_some hfind
        have hfound := find?_some hfind
        rw [Bool.and_eq_true, decide_eq_true_eq, h.rows] at hfound
        refine ⟨(nonce, realId r) :: pairs, congrArg _ h.nonces, congrArg _ h.rows,
          nodup_cons.2 ⟨hfound.1, h.apart⟩, fun p hp => ?_⟩
        rcases mem_cons.1 hp with rfl | hp
        · exact ⟨m, mem_append_right _ (.head _), hnonce, r, hr, rfl, hfound.2⟩
        · exact hclaims p hp

theorem claimed_spec (waiting out : List String) (unclaimed pending : List MergeRow) :
    ∃ pairs, Claimed waiting unclaimed pending out
      (pending.foldl (claim waiting unclaimed) ([], out)) pairs := by
  induction pending using List.reverseRecOn with
  | nil => exact ⟨[], rfl, rfl, nodup_nil, fun _ h => by cases h⟩
  | append_singleton pending m ih =>
    obtain ⟨pairs, h⟩ := ih
    rw [foldl_append]
    exact h.step m

def knownIds (slice : List MergeRow) : List Nat := (slice.map realId).filter (0 < ·)

/-- Settled bubbles, each with its own confirming row of the page. -/
def SettledBy (ownUid : Int) (slice page : List MergeRow) (settled : List String)
    (rowOf : String → MergeRow) : Prop :=
  (∀ n ∈ settled, ∀ n' ∈ settled, realId (rowOf n) = realId (rowOf n') → n = n') ∧
    ∀ n ∈ settled, rowOf n ∈ page ∧ ∃ m ∈ slice, realId m = 0 ∧ nonceOf m = some n ∧
      Confirms ownUid (knownIds slice) m (rowOf n)

theorem mem_pendingRows {m : MergeRow} (h : m ∈ pendingRows slice) : m ∈ slice ∧ realId m = 0 := by
  obtain ⟨hm, hcond⟩ := mem_filter.1 h
  exact ⟨hm, of_decide_eq_true (Bool.and_eq_true_iff.1 hcond).1⟩

theorem settledNonces_settledBy (ownUid : Int) (slice : List MergeRow)
    (hpage : (page.map realId).Nodup) :
    ∃ rowOf, SettledBy ownUid slice page (settledNonces slice page ownUid) rowOf := by
  generalize hc : page.foldl (readRow ownUid (knownIds slice))
    { waiting := (pendingRows slice).filterMap nonceOf } = c
  have hread : ReadRows ownUid (knownIds slice) ((pendingRows slice).filterMap nonceOf) page c :=
    hc ▸ readRows_spec _ page
  generalize hs : (pendingRows slice).foldl (claim c.waiting
    (c.unclaimed.insertionSort fun a b => realId a ≤ realId b)) ([], c.out) = s
  obtain ⟨pairs, hclaimed⟩ : ∃ pairs, Claimed c.waiting
      (c.unclaimed.insertionSort fun a b => realId a ≤ realId b) (pendingRows slice) c.out s
      pairs := hs ▸ claimed_spec ..
  -- The row of a nonce has it, or has none and was claimed for it.
  have hrow : ∀ n ∈ settledNonces slice page ownUid, ∃ r, r ∈ page ∧
      (nonceOf r = some n ∨ nonceOf r = none ∧ (n, realId r) ∈ pairs) ∧
      ∃ m ∈ slice, realId m = 0 ∧ nonceOf m = some n ∧ Confirms ownUid (knownIds slice) m r := by
    have hout : ∀ n ∈ c.out, ∃ r, r ∈ page ∧
        (nonceOf r = some n ∨ nonceOf r = none ∧ (n, realId r) ∈ pairs) ∧
        ∃ m ∈ slice, realId m = 0 ∧ nonceOf m = some n ∧
          Confirms ownUid (knownIds slice) m r := by
      intro n hn
      obtain ⟨hmem, r, hr, hid, hrn⟩ := (hread.out n).1 hn
      obtain ⟨m, hm, hmn⟩ := mem_filterMap.1 hmem
      obtain ⟨hm, hm0⟩ := mem_pendingRows hm
      exact ⟨r, hr, .inl hrn, m, hm, hm0, hmn, hid, .inl (hrn.trans hmn.symm)⟩
    intro n hn
    rw [settledNonces] at hn
    dsimp only at hn
    split at hn
    · cases hn
    · rw [← knownIds, hc] at hn
      split at hn
      · exact hout n hn
      · rw [hs, hclaimed.nonces] at hn
        rcases mem_append.1 hn with hn | hn
        · obtain ⟨p, hp, rfl⟩ := mem_map.1 hn
          obtain ⟨m, hm, hmn, r, hr, hrid, hrepeats⟩ := hclaimed.claims p hp
          obtain ⟨hm, hm0⟩ := mem_pendingRows hm
          rw [mem_insertionSort, hread.unclaimed, mem_filter, claimable] at hr
          simp only [Bool.and_eq_true, decide_eq_true_eq, Option.isNone_iff_eq_none] at hr
          obtain ⟨hr, ⟨⟨⟨hid, hnone⟩, -⟩, hsender⟩, hnew⟩ := hr
          exact ⟨r, hr, .inr ⟨hnone, hrid.symm ▸ hp⟩, m, hm, hm0, hmn, hid,
            .inr ⟨hnone, hsender, hnew, hrepeats⟩⟩
        · exact hout n hn
  choose! rowOf hrowOf using hrow
  refine ⟨rowOf, fun n hn n' hn' hsame => ?_, fun n hn => ⟨(hrowOf n hn).1, (hrowOf n hn).2.2⟩⟩
  obtain ⟨hr, hpair, -⟩ := hrowOf n hn
  obtain ⟨hr', hpair', -⟩ := hrowOf n' hn'
  have hrow : rowOf n = rowOf n' := inj_on_of_nodup_map hpage hr hr' hsame
  rw [← hrow] at hpair'
  rcases hpair with hnonce | ⟨hnone, hp⟩
  · rcases hpair' with hnonce' | ⟨hnone', -⟩
    · exact Option.some.inj (hnonce.symm.trans hnonce')
    · cases hnonce.symm.trans hnone'
  · rcases hpair' with hnonce' | ⟨-, hp'⟩
    · cases hnone.symm.trans hnonce'
    · exact congrArg Prod.fst (inj_on_of_nodup_map hclaimed.apart hp hp' rfl)

/-- Nothing is settled if no bubble waits for a nonce of the page and its rows without one are in
    the slice. -/
theorem settledNonces_eq_nil
    (hnonces : ∀ r ∈ page, 0 < realId r → ∀ n, nonceOf r = some n →
      ∀ m ∈ slice, realId m = 0 → nonceOf m ≠ some n)
    (hknown : ∀ r ∈ page, 0 < realId r → realId r ∈ knownIds slice) :
    settledNonces slice page ownUid = [] := by
  have hread := @readRows_spec ownUid (knownIds slice) ((pendingRows slice).filterMap nonceOf) page
  rw [settledNonces]
  dsimp only
  split
  · rfl
  · rw [← knownIds]
    generalize page.foldl (readRow ownUid (knownIds slice))
      { waiting := (pendingRows slice).filterMap nonceOf } = c at hread
    have hunclaimed : c.unclaimed = [] := by
      rw [hread.unclaimed, filter_eq_nil_iff]
      intro r hr hclaimable
      simp only [claimable, Bool.and_eq_true, decide_eq_true_eq] at hclaimable
      exact hclaimable.2 (hknown r hr hclaimable.1.1.1.1)
    rw [if_pos (.inr hunclaimed), eq_nil_iff_forall_not_mem]
    intro n hn
    obtain ⟨hmem, r, hr, hid, hrn⟩ := (hread.out n).1 hn
    obtain ⟨m, hm, hmn⟩ := mem_filterMap.1 hmem
    exact hnonces r hr hid n hrn m (mem_pendingRows hm).1 (mem_pendingRows hm).2 hmn

theorem mem_settledNonces_of_nonce {m r : MergeRow} {n : String} (hm : m ∈ slice)
    (hm0 : realId m = 0) (hmn : nonceOf m = some n) (hr : r ∈ page) (hid : 0 < realId r)
    (hrn : nonceOf r = some n) : n ∈ settledNonces slice page ownUid := by
  have hread := @readRows_spec ownUid (knownIds slice) ((pendingRows slice).filterMap nonceOf) page
  have hpending : m ∈ pendingRows slice := by
    rw [pendingRows, mem_filter, hm0, hmn]
    exact ⟨hm, rfl⟩
  rw [settledNonces]
  dsimp only
  rw [if_neg (ne_nil_of_mem hpending), ← knownIds]
  generalize page.foldl (readRow ownUid (knownIds slice))
    { waiting := (pendingRows slice).filterMap nonceOf } = c at hread
  have hout : n ∈ c.out :=
    (hread.out n).2 ⟨mem_filterMap.2 ⟨m, hpending, hmn⟩, r, hr, hid, hrn⟩
  split
  · exact hout
  · obtain ⟨pairs, hclaimed⟩ := claimed_spec c.waiting c.out
      (c.unclaimed.insertionSort fun a b => realId a ≤ realId b) (pendingRows slice)
    rw [hclaimed.nonces]
    exact mem_append_right _ hout

end Decibell.Client
