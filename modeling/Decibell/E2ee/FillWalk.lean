import Decibell.Community.KeyNeeds
import Decibell.Lib.Bytes
import Decibell.Lib.Fallible

/-!
# The walk of a fill

A member who holds the keys of a channel seals them for the viewers who lack some, page by page of
what the server lists, and publishes what is sealed as it goes, at most a publish's worth at a time.
A failure costs what it touched: a viewer who could not be sealed to, a publish that did not land.
-/

namespace Decibell

open Lib

/-! ## The network -/

/-- A key of an epoch. -/
abbrev ChannelKey := Vector UInt8 32

open List

/-- An epoch key sealed to a member. -/
structure ChannelKeyBlob where
  epoch : Nat
  sender : String := ""
  recipient : String
  blob : Bytes
  senderUid : Uid := 0
  recipientUid : Uid
  keyCheck : Bytes := []
deriving DecidableEq

abbrev ChannelKeysPublishRes := Tables.ChannelKeysPublishRes

/-- What a fill asks of the network; the rest of the world is a `σ`. -/
structure FillIo (σ : Type) where
  /-- The needs page after a uid, and whether more follow. -/
  needsAfter : Int → σ → Except String (List KeyNeed × Bool) × σ
  /-- Keys sealed to one viewer; none when they have no identity. -/
  sealTo : String → Uid → List (Nat × ChannelKey) → σ →
    Except String (Option (List ChannelKeyBlob)) × σ
  publish : Nat → List ChannelKeyBlob → σ → Except String ChannelKeysPublishRes × σ

/-- The most blobs one publish carries. -/
def maxPublishBlobs : Nat := 400

/-- A fill publishes after this many members. -/
def fillFlushMembers : Nat := 32

/-- Needs pages a fill walks at most. -/
def maxNeedsPages : Nat := 1000

/-- Publishes that fail in a row before a fill gives up. -/
def maxFailedPublishesInARow : Nat := 3

/-- A blob's content: a tag, the epoch, its key and the channel. -/
def keyBlobContent (channelId : String) (epoch : Nat) (key : ChannelKey) : Bytes :=
  2 :: leBytes 4 epoch ++ key.toList ++ channelId.toUTF8.toList

section Seal

variable {σ : Type}
  (sealOutboundRaw : Uid → String → Bytes → σ → Except String (Option Bytes) × σ)
  (channelId : String)

/-- Seals keys to a viewer, after `out`, if they have an identity. -/
def sealBlobs (recipient : String) (recipientUid : Uid) (out : List ChannelKeyBlob) :
    List (Nat × ChannelKey) → σ → Except String (Option (List ChannelKeyBlob)) × σ
  | [], s => (.ok (some out), s)
  | (epoch, key) :: keys, s =>
    match sealOutboundRaw recipientUid recipient (keyBlobContent channelId epoch key) s with
    | (.error e, s) => (.error e, s)
    | (.ok none, s) => (.ok none, s)
    | (.ok (some wire), s) =>
      sealBlobs recipient recipientUid (out ++ [{ epoch, recipient, blob := wire, recipientUid }])
        keys s

/-- Accounts only: a placeholder has no identity. -/
def sealBlobsFor (recipient : String) (recipientUid : Uid) (keys : List (Nat × ChannelKey)) (s : σ) :
    Except String (Option (List ChannelKeyBlob)) × σ :=
  if recipientUid ≤ 0 then (.ok none, s)
  else sealBlobs sealOutboundRaw channelId recipient recipientUid [] keys s

/-- A fill over the network. -/
def netFill (needsAfter : Int → σ → Except String (List KeyNeed × Bool) × σ)
    (publish : Nat → List ChannelKeyBlob → σ → Except String ChannelKeysPublishRes × σ) :
    FillIo σ where
  needsAfter
  sealTo := sealBlobsFor sealOutboundRaw channelId
  publish

variable {sealOutboundRaw channelId}

theorem sealBlobs_eq {recipient : String} {uid : Uid} {out blobs : List ChannelKeyBlob}
    {held : List (Nat × ChannelKey)} {s : σ}
    (h : (sealBlobs sealOutboundRaw channelId recipient uid out held s).1 = .ok (some blobs)) :
    blobs.map (fun b => (b.recipientUid, b.epoch)) =
      out.map (fun b => (b.recipientUid, b.epoch)) ++ held.map fun p => (uid, p.1) := by
  induction held generalizing out s with
  | nil =>
    cases h
    exact (append_nil _).symm
  | cons p held ih =>
    rw [sealBlobs] at h
    split at h
    · cases h
    · cases h
    · rw [ih h, map_append, append_assoc]
      rfl

theorem sealBlobsFor_eq {recipient : String} {uid : Uid} {blobs : List ChannelKeyBlob}
    {held : List (Nat × ChannelKey)} {s : σ}
    (h : (sealBlobsFor sealOutboundRaw channelId recipient uid held s).1 = .ok (some blobs)) :
    blobs.map (fun b => (b.recipientUid, b.epoch)) = held.map fun p => (uid, p.1) := by
  rw [sealBlobsFor] at h
  split at h
  · cases h
  · exact sealBlobs_eq h

end Seal

/-! ## The walk -/

structure FillReport where
  /-- Viewers sealed to, and the blobs of theirs that landed. -/
  sealed : Nat := 0
  blobs : Nat := 0
  /-- Viewers with no keys, or whose sealing failed. -/
  unsealed : Nat := 0
  failedPublishes : Nat := 0
  pages : Nat := 0
deriving DecidableEq, Repr

/-- What was asked of the network, and what came back. -/
inductive FillEvent
  | needs (after : Int) (reply : Except String (List KeyNeed × Bool))
  | sealTo (need : KeyNeed) (keys : List (Nat × ChannelKey))
      (reply : Except String (Option (List ChannelKeyBlob)))
  | publish (epoch : Nat) (blobs : List ChannelKeyBlob) (reply : Except String ChannelKeysPublishRes)

/-- The state of a walk. -/
structure FillWalk (σ : Type) where
  world : σ
  keys : Nat → Option ChannelKey
  /-- What is sealed and not published yet, by epoch. -/
  pending : List (Nat × List ChannelKeyBlob) := []
  sinceFlush : Nat := 0
  failedInARow : Nat := 0
  report : FillReport := {}
  /-- The needs walked, and what was asked; for the history only. -/
  walked : List KeyNeed := []
  trace : List FillEvent := []

/-- Adds a blob to those of its epoch, the epochs in order. -/
def pushBlob (b : ChannelKeyBlob) :
    List (Nat × List ChannelKeyBlob) → List (Nat × List ChannelKeyBlob)
  | [] => [(b.epoch, [b])]
  | (epoch, blobs) :: rest =>
    if b.epoch < epoch then (b.epoch, [b]) :: (epoch, blobs) :: rest
    else if b.epoch = epoch then (epoch, blobs ++ [b]) :: rest
    else (epoch, blobs) :: pushBlob b rest

/-- The pieces of a list, at most `n + 1` long. -/
def chunks {α : Type} (n : Nat) (l : List α) : List (List α) :=
  if h : l = [] then []
  else l.take (n + 1) :: chunks n (l.drop (n + 1))
termination_by l.length
decreasing_by
  have hpos := List.length_pos_of_ne_nil h
  rw [List.length_drop]
  omega

namespace FillWalk

variable {σ : Type} (io : FillIo σ)

abbrev FillM (σ : Type) := Fallible String (FillWalk σ)

/-- Asks the network, and keeps the reply for the history. -/
def ask {α : Type} (call : σ → Except String α × σ) (event : Except String α → FillEvent) :
    FillM σ (Except String α) := do
  let w ← get
  set { w with world := (call w.world).2, trace := w.trace ++ [event (call w.world).1] }
  return (call w.world).1

/-- Publishes an epoch's chunks; refused as not held it is dropped from the walk. -/
def publishChunks (epoch : Nat) : List (List ChannelKeyBlob) → FillM σ Unit
  | [] => return
  | chunk :: chunks => do
    match ← ask (io.publish epoch chunk) (.publish epoch chunk) with
    | .ok r =>
      if r.success then
        modify fun w => { w with
          report.blobs := w.report.blobs + chunk.length
          failedInARow := 0 }
        publishChunks epoch chunks
      else
        modify fun w => { w with
          report.failedPublishes := w.report.failedPublishes + 1
          failedInARow := 0 }
        if r.message = "not_a_holder" then
          modify fun w => { w with keys := fun e => if e = epoch then none else w.keys e }
        else publishChunks epoch chunks
    | .error e =>
      modify fun w => { w with
        report.failedPublishes := w.report.failedPublishes + 1
        failedInARow := w.failedInARow + 1 }
      let w ← get
      if w.failedInARow ≥ maxFailedPublishesInARow then
        throw (toString w.failedInARow ++ " publishes in a row failed, last: " ++ e)
      else publishChunks epoch chunks

/-- Publishes what was sealed, per epoch, a publish's worth at a time. -/
def publishPending : FillM σ Unit := do
  let w ← get
  set { w with pending := [] }
  w.pending.forM fun (epoch, blobs) => publishChunks io epoch (chunks (maxPublishBlobs - 1) blobs)

/-- Counts a viewer, with what was sealed to them. -/
def noteSealed (reply : Except String (Option (List ChannelKeyBlob))) (w : FillWalk σ) :
    FillWalk σ :=
  match reply with
  | .ok (some blobs) => { w with
      report.sealed := w.report.sealed + 1
      pending := blobs.foldl (fun pending b => pushBlob b pending) w.pending
      sinceFlush := w.sinceFlush + 1 }
  | .ok none => { w with report.unsealed := w.report.unsealed + 1 }
  | .error _ => { w with report.unsealed := w.report.unsealed + 1 }

/-- Seals to one viewer what is held of what they lack, and publishes enough. -/
def fillNeed (need : KeyNeed) : FillM σ Unit := do
  let w ← get
  set { w with walked := w.walked ++ [need] }
  let held := need.epochs.filterMap fun e => (w.keys e).map fun k => (e, k)
  if held.isEmpty then return
  else
    let reply ← ask (io.sealTo need.username need.uid held) (.sealTo need held)
    modify (noteSealed reply)
    let w ← get
    if w.sinceFlush ≥ fillFlushMembers ∨
        (w.pending.map fun p => p.2.length).sum ≥ maxPublishBlobs then
      publishPending io
      modify fun w => { w with sinceFlush := 0 }
    else return

/-- The page after a uid, asked for twice if need be. -/
def needsPage (after : Int) : FillM σ (List KeyNeed × Bool) := do
  match ← ask (io.needsAfter after) (.needs after) with
  | .ok page => return page
  | .error _ =>
    match ← ask (io.needsAfter after) (.needs after) with
    | .ok page => return page
    | .error e => throw e

/-- One page, after `pages`: everybody on it, and what is to be published. -/
def walkPage (pages : Nat) (needs : List KeyNeed) : FillM σ Unit := do
  modify fun w => { w with report.pages := pages + 1 }
  needs.forM (fillNeed io)
  publishPending io
  modify fun w => { w with sinceFlush := 0 }

/-- The pages from one on, each past the last: else it would walk forever. -/
def walkPages (pages : Nat) (needs : List KeyNeed) (more : Bool) (after : Int) : FillM σ Unit := do
  walkPage io pages needs
  match needs.getLast? with
  | none => return
  | some last =>
    if _h : more = true ∧ pages + 1 < maxNeedsPages then
      if last.uid ≤ after then return
      else
        let page ← needsPage io last.uid
        walkPages (pages + 1) page.1 page.2 last.uid
    else return
termination_by maxNeedsPages - pages

/-- Seals the keys held for every viewer who lacks them, page by page. -/
def walkFill (keys : Nat → Option ChannelKey) (first : List KeyNeed) (more : Bool) (world : σ) :
    Except String FillReport × FillWalk σ :=
  let end_ := Fallible.exec (walkPages io 0 first more 0) { world, keys }
  (end_.1.map fun _ => end_.2.report, end_.2)

/-! ## The history of a walk -/

/-- The blobs of the publishes, whatever the replies. -/
def published (trace : List FillEvent) : List ChannelKeyBlob :=
  trace.flatMap fun
    | .publish _ blobs _ => blobs
    | _ => []

def sealedBlobs (trace : List FillEvent) : List ChannelKeyBlob :=
  trace.flatMap fun
    | .sealTo _ _ (.ok (some blobs)) => blobs
    | _ => []

/-- Whom keys were to be sealed to, with the keys. -/
def asked (trace : List FillEvent) : List (KeyNeed × List (Nat × ChannelKey)) :=
  trace.flatMap fun
    | .sealTo need held _ => [(need, held)]
    | _ => []

def pagesAsked (trace : List FillEvent) : List (Int × Except String (List KeyNeed × Bool)) :=
  trace.flatMap fun
    | .needs after reply => [(after, reply)]
    | _ => []

/-- One more event after `n` publishes in a row that failed. -/
def rowAfter (n : Nat) : FillEvent → Nat
  | .publish _ _ (.error _) => n + 1
  | .publish _ _ (.ok _) => 0
  | _ => n

/-- How many publishes failed since the last one that was answered. -/
def failingRow (trace : List FillEvent) : Nat := trace.foldl rowAfter 0

/-- The server said that the walker does not hold an epoch. -/
def Refused (trace : List FillEvent) (epoch : Nat) : Prop :=
  ∃ blobs r, .publish epoch blobs (.ok r) ∈ trace ∧ r.success = false ∧ r.message = "not_a_holder"

/-- The last page asked for did not come, also the second time. -/
def PageLost (trace : List FillEvent) : Prop :=
  ∃ before after e e', trace = before ++ [.needs after (.error e), .needs after (.error e')]

/-- The keys of a walker that a viewer lacks. -/
def heldOf (keys : Nat → Option ChannelKey) (need : KeyNeed) : List (Nat × ChannelKey) :=
  need.epochs.filterMap fun e => (keys e).map fun k => (e, k)

theorem Refused.mono {trace : List FillEvent} {epoch : Nat} (h : Refused trace epoch)
    (later : List FillEvent) : Refused (trace ++ later) epoch := by
  obtain ⟨blobs, r, hmem, hr⟩ := h
  exact ⟨blobs, r, mem_append_left later hmem, hr⟩

theorem mem_heldOf {keys : Nat → Option ChannelKey} {need : KeyNeed} {e : Nat} {k : ChannelKey} :
    (e, k) ∈ heldOf keys need ↔ e ∈ need.epochs ∧ keys e = some k := by
  rw [heldOf, mem_filterMap]
  constructor
  · rintro ⟨e', he, hk⟩
    obtain ⟨k', hk', heq⟩ := Option.map_eq_some_iff.1 hk
    cases heq
    exact ⟨he, hk'⟩
  · exact fun ⟨he, hk⟩ => ⟨e, he, Option.map_eq_some_iff.2 ⟨k, hk, rfl⟩⟩

/-! ## The invariant -/

/-- What a fill relies on: every key is sealed, to the viewer asked for; and what good publishes
    keep of the world. -/
structure Serves (io : FillIo σ) (W : σ → Prop) (Q : ChannelKeyBlob → Prop) : Prop where
  seals : ∀ user uid held s blobs, (io.sealTo user uid held s).1 = .ok (some blobs) →
    blobs.map (fun b => (b.recipientUid, b.epoch)) = held.map fun p => (uid, p.1)
  needsAfter : ∀ after s, W s → W (io.needsAfter after s).2
  sealTo : ∀ user uid held s, W s → W (io.sealTo user uid held s).2
  publish : ∀ epoch blobs s, W s → blobs ≠ [] → (∀ b ∈ blobs, b.epoch = epoch ∧ Q b) →
    W (io.publish epoch blobs s).2

/-- All along a walk from `keys`, with `rest` taken from what is pending: every sealed blob was
    published, is to be, or is of a refused epoch; and who was walked was asked for with what is
    held. -/
structure WalkInv (io : FillIo σ) (W : σ → Prop) (Q : ChannelKeyBlob → Prop) (keys : Nat → Option ChannelKey)
    (rest : List ChannelKeyBlob) (w : FillWalk σ) : Prop where
  world : W w.world
  good : ∀ b ∈ rest ++ w.pending.flatMap (·.2), Q b
  accounted : ∃ dropped, (sealedBlobs w.trace).Perm
    (published w.trace ++ (rest ++ (w.pending.flatMap (·.2) ++ dropped))) ∧
      ∀ b ∈ dropped, Refused w.trace b.epoch
  still : ∀ e, w.keys e = keys e ∨ w.keys e = none ∧ Refused w.trace e
  epochs : ∀ p ∈ w.pending, ∀ b ∈ p.2, b.epoch = p.1
  sent : ∀ epoch blobs r, .publish epoch blobs r ∈ w.trace →
    blobs ≠ [] ∧ blobs.length ≤ maxPublishBlobs ∧ ∀ b ∈ blobs, b.epoch = epoch
  replies : ∀ n held r, .sealTo n held r ∈ w.trace →
    ∃ s, r = (io.sealTo n.username n.uid held s).1
  failing : w.failedInARow = failingRow w.trace
  looked : ∀ n ∈ w.walked, ∀ e ∈ n.epochs, ∀ k, keys e = some k → Refused w.trace e ∨
    ∃ held r, .sealTo n held r ∈ w.trace ∧ (e, k) ∈ held
  exact : (∀ e, ¬ Refused w.trace e) → asked w.trace =
    (w.walked.map fun n => (n, heldOf keys n)).filter fun p => ! p.2.isEmpty

variable {io} {W : σ → Prop} {Q : ChannelKeyBlob → Prop} {keys : Nat → Option ChannelKey}
  {rest : List ChannelKeyBlob} {w w' : FillWalk σ}

theorem WalkInv.of_eq (h : WalkInv io W Q keys rest w) (hworld : w'.world = w.world)
    (hpending : w'.pending = w.pending) (hkeys : w'.keys = w.keys) (hwalked : w'.walked = w.walked)
    (hfailed : w'.failedInARow = w.failedInARow) (htrace : w'.trace = w.trace) :
    WalkInv io W Q keys rest w' where
  world := hworld ▸ h.world
  good := hpending ▸ h.good
  accounted := by rw [hpending, htrace]; exact h.accounted
  still := by rw [hkeys, htrace]; exact h.still
  epochs := hpending ▸ h.epochs
  sent := htrace ▸ h.sent
  replies := htrace ▸ h.replies
  failing := by rw [hfailed, htrace]; exact h.failing
  looked := by rw [hwalked, htrace]; exact h.looked
  exact := by rw [hwalked, htrace]; exact h.exact

theorem WalkInv.change {W' : σ → Prop} {Q' : ChannelKeyBlob → Prop}
    (h : WalkInv io W Q keys rest w) (hworld : W' w.world) (hgood : ∀ b, Q b → Q' b) :
    WalkInv io W' Q' keys rest w :=
  { h with world := hworld, good := fun b hb => hgood b (h.good b hb) }

theorem WalkInv.publish {epoch : Nat} {chunk : List ChannelKeyBlob}
    {r : Except String ChannelKeysPublishRes} (h : WalkInv io W Q keys (chunk ++ rest) w)
    (hchunk : chunk ≠ [] ∧ chunk.length ≤ maxPublishBlobs ∧ ∀ b ∈ chunk, b.epoch = epoch)
    (hworld : W w'.world) (hpending : w'.pending = w.pending) (hkeys : w'.keys = w.keys)
    (hwalked : w'.walked = w.walked) (htrace : w'.trace = w.trace ++ [.publish epoch chunk r])
    (hfailed : w'.failedInARow = rowAfter w.failedInARow (.publish epoch chunk r)) :
    WalkInv io W Q keys rest w' where
  world := hworld
  good b hb := by
    rw [hpending] at hb
    exact h.good b (by rw [append_assoc]; exact mem_append_right chunk hb)
  accounted := by
    obtain ⟨dropped, hperm, hdropped⟩ := h.accounted
    refine ⟨dropped, ?_, fun b hb => htrace ▸ (hdropped b hb).mono _⟩
    rw [hpending, htrace, published, sealedBlobs, flatMap_append, flatMap_append]
    simpa [published, sealedBlobs] using hperm
  still e := by
    rw [hkeys, htrace]
    exact (h.still e).imp id fun hr => ⟨hr.1, hr.2.mono _⟩
  epochs := hpending ▸ h.epochs
  sent epoch' blobs r' hmem := by
    rw [htrace] at hmem
    rcases mem_append.1 hmem with hmem | hmem
    · exact h.sent epoch' blobs r' hmem
    · cases mem_singleton.1 hmem
      exact hchunk
  replies n held r' hmem := by
    rw [htrace] at hmem
    rcases mem_append.1 hmem with hmem | hmem
    · exact h.replies n held r' hmem
    · cases mem_singleton.1 hmem
  failing := by
    rw [hfailed, htrace, failingRow, foldl_append, h.failing]
    rfl
  looked n hn e he k hk := by
    rw [hwalked] at hn
    rw [htrace]
    rcases h.looked n hn e he k hk with hr | ⟨held, r', hmem, hheld⟩
    · exact .inl (hr.mono _)
    · exact .inr ⟨held, r', mem_append_left _ hmem, hheld⟩
  exact hnone := by
    rw [htrace] at hnone
    have hbefore := h.exact fun e hr => hnone e (hr.mono _)
    rw [hwalked, htrace, asked, flatMap_append, ← hbefore]
    exact append_nil _

theorem WalkInv.drop {epoch : Nat} {lost : List ChannelKeyBlob}
    (h : WalkInv io W Q keys (lost ++ rest) w) (hlost : ∀ b ∈ lost, b.epoch = epoch)
    (hrefused : Refused w.trace epoch) : WalkInv io W Q keys rest
      { w with keys := fun e => if e = epoch then none else w.keys e } where
  world := h.world
  good b hb := h.good b (by rw [append_assoc]; exact mem_append_right lost hb)
  accounted := by
    obtain ⟨dropped, hperm, hdropped⟩ := h.accounted
    refine ⟨lost ++ dropped, ?_, fun b hb => ?_⟩
    · have hmove := (perm_append_comm_assoc lost rest (w.pending.flatMap (·.2) ++ dropped)).trans
        ((perm_append_comm_assoc lost (w.pending.flatMap (·.2)) dropped).append_left rest)
      rw [append_assoc] at hperm
      exact hperm.trans (hmove.append_left _)
    · rcases mem_append.1 hb with hb | hb
      · exact hlost b hb ▸ hrefused
      · exact hdropped b hb
  still e := by
    by_cases he : e = epoch
    · exact .inr ⟨if_pos he, he ▸ hrefused⟩
    · dsimp only
      rw [if_neg he]
      exact h.still e
  epochs := h.epochs
  sent := h.sent
  replies := h.replies
  failing := h.failing
  looked := h.looked
  exact := h.exact

theorem perm_pushBlob (b : ChannelKeyBlob) (pending : List (Nat × List ChannelKeyBlob)) :
    ((pushBlob b pending).flatMap (·.2)).Perm (pending.flatMap (·.2) ++ [b]) := by
  induction pending with
  | nil => exact .refl _
  | cons p rest ih =>
    obtain ⟨epoch, blobs⟩ := p
    rw [pushBlob]
    split
    · exact (perm_append_comm : ([b] ++ _).Perm _)
    split
    · rw [flatMap_cons, flatMap_cons, append_assoc, append_assoc]
      exact perm_append_comm.append_left blobs
    · rw [flatMap_cons, flatMap_cons, append_assoc]
      exact ih.append_left blobs

theorem epoch_pushBlob {b : ChannelKeyBlob} {pending : List (Nat × List ChannelKeyBlob)}
    (h : ∀ p ∈ pending, ∀ b ∈ p.2, b.epoch = p.1) :
    ∀ p ∈ pushBlob b pending, ∀ b ∈ p.2, b.epoch = p.1 := by
  induction pending with
  | nil =>
    intro p hp b' hb'
    cases mem_singleton.1 hp
    cases mem_singleton.1 hb'
    rfl
  | cons q rest ih =>
    obtain ⟨epoch, blobs⟩ := q
    obtain ⟨hq, hrest⟩ := forall_mem_cons.1 h
    rw [pushBlob]
    split
    · refine forall_mem_cons.2 ⟨fun b' hb' => ?_, h⟩
      cases mem_singleton.1 hb'
      rfl
    split
    · next heq =>
      refine forall_mem_cons.2 ⟨fun b' hb' => ?_, hrest⟩
      rcases mem_append.1 hb' with hb' | hb'
      · exact hq b' hb'
      · cases mem_singleton.1 hb'
        exact heq
    · exact forall_mem_cons.2 ⟨hq, ih hrest⟩

theorem perm_pushBlobs (blobs : List ChannelKeyBlob) (pending : List (Nat × List ChannelKeyBlob)) :
    ((blobs.foldl (fun pending b => pushBlob b pending) pending).flatMap (·.2)).Perm
      (pending.flatMap (·.2) ++ blobs) := by
  induction blobs generalizing pending with
  | nil => rw [append_nil]; exact .refl _
  | cons b blobs ih =>
    refine (ih (pushBlob b pending)).trans ?_
    have hpush := (perm_pushBlob b pending).append_right blobs
    rwa [append_assoc] at hpush

theorem epoch_pushBlobs {blobs : List ChannelKeyBlob}
    {pending : List (Nat × List ChannelKeyBlob)} (h : ∀ p ∈ pending, ∀ b ∈ p.2, b.epoch = p.1) :
    ∀ p ∈ blobs.foldl (fun pending b => pushBlob b pending) pending, ∀ b ∈ p.2, b.epoch = p.1 := by
  induction blobs generalizing pending with
  | nil => exact h
  | cons b blobs ih => exact ih (epoch_pushBlob h)

theorem WalkInv.sealTo {need : KeyNeed} {held : List (Nat × ChannelKey)}
    {r : Except String (Option (List ChannelKeyBlob))} (h : WalkInv io W Q keys [] w)
    (hreply : ∃ s, r = (io.sealTo need.username need.uid held s).1)
    (hgood : ∀ blobs, r = .ok (some blobs) → ∀ b ∈ blobs, Q b) (hsome : held ≠ [])
    (hkey : ∀ e ∈ need.epochs, ∀ k, keys e = some k → Refused w.trace e ∨ (e, k) ∈ held)
    (hsame : (∀ e, ¬ Refused w.trace e) → held = heldOf keys need) {world : σ} (hworld : W world) :
    WalkInv io W Q keys [] (noteSealed r { w with
      world
      walked := w.walked ++ [need]
      trace := w.trace ++ [.sealTo need held r] }) := by
  -- Everything but what is pending is the same, whatever was sealed.
  have hkeep : ∀ w' : FillWalk σ, w'.world = world → w'.keys = w.keys →
      w'.walked = w.walked ++ [need] → w'.trace = w.trace ++ [.sealTo need held r] →
      w'.failedInARow = w.failedInARow → (∀ b ∈ w'.pending.flatMap (·.2), Q b) →
      (∃ dropped, (sealedBlobs w'.trace).Perm
        (published w'.trace ++ (w'.pending.flatMap (·.2) ++ dropped)) ∧
          ∀ b ∈ dropped, Refused w.trace b.epoch) →
      (∀ p ∈ w'.pending, ∀ b ∈ p.2, b.epoch = p.1) → WalkInv io W Q keys [] w' := by
    intro w' hworld' hkeys hwalked htrace hfailed hq ⟨dropped, hperm, hdropped⟩ hepochs
    refine ⟨hworld' ▸ hworld, hq, ⟨dropped, hperm, fun b hb => ?_⟩, fun e => ?_, hepochs,
      fun epoch blobs r' hmem => ?_, fun n held' r' hmem => ?_, ?_, fun n hn e he k hk => ?_,
      fun hnone => ?_⟩
    · exact htrace ▸ (hdropped b hb).mono _
    · rw [hkeys, htrace]
      exact (h.still e).imp id fun hr => ⟨hr.1, hr.2.mono _⟩
    · rw [htrace] at hmem
      rcases mem_append.1 hmem with hmem | hmem
      · exact h.sent epoch blobs r' hmem
      · cases mem_singleton.1 hmem
    · rw [htrace] at hmem
      rcases mem_append.1 hmem with hmem | hmem
      · exact h.replies n held' r' hmem
      · cases mem_singleton.1 hmem
        exact hreply
    · rw [hfailed, htrace, failingRow, foldl_append, h.failing]
      rfl
    · rw [hwalked] at hn
      rw [htrace]
      rcases mem_append.1 hn with hn | hn
      · rcases h.looked n hn e he k hk with hr | ⟨held', r', hmem, hheld⟩
        · exact .inl (hr.mono _)
        · exact .inr ⟨held', r', mem_append_left _ hmem, hheld⟩
      · cases mem_singleton.1 hn
        exact (hkey e he k hk).imp (·.mono _) fun hmem =>
          ⟨held, r, mem_append_right _ (mem_singleton_self _), hmem⟩
    · rw [htrace] at hnone
      have hbefore : ∀ e, ¬ Refused w.trace e := fun e hr => hnone e (hr.mono _)
      have hfilter : List.filter (fun p => ! p.2.isEmpty) [(need, held)] = [(need, held)] :=
        filter_cons_of_pos (by simpa using hsome)
      rw [htrace, hwalked, asked, flatMap_append, map_append, filter_append,
        ← h.exact hbefore, map_singleton, ← hsame hbefore, hfilter]
      rfl
  obtain ⟨dropped, hperm, hdropped⟩ := h.accounted
  have hpublished : published (w.trace ++ [.sealTo need held r]) = published w.trace := by
    rw [published, flatMap_append]
    exact append_nil _
  have hunsealed : (∀ blobs, r ≠ .ok (some blobs)) → sealedBlobs (w.trace ++ [.sealTo need held r]) =
      sealedBlobs w.trace := by
    intro hr
    rw [sealedBlobs, flatMap_append]
    rcases r with e | _ | blobs
    · exact append_nil _
    · exact append_nil _
    · exact absurd rfl (hr blobs)
  rcases r with e | _ | blobs
  · refine hkeep _ rfl rfl rfl rfl rfl h.good ⟨dropped, ?_, hdropped⟩ h.epochs
    rw [noteSealed, hpublished, hunsealed (fun _ heq => nomatch heq)]
    exact hperm
  · refine hkeep _ rfl rfl rfl rfl rfl h.good ⟨dropped, ?_, hdropped⟩ h.epochs
    rw [noteSealed, hpublished, hunsealed (fun _ heq => nomatch heq)]
    exact hperm
  · have hpush := perm_pushBlobs blobs w.pending
    refine hkeep _ rfl rfl rfl rfl rfl (fun b hb => ?_) ⟨dropped, ?_, hdropped⟩
      (epoch_pushBlobs h.epochs)
    · rcases mem_append.1 (hpush.mem_iff.1 hb) with hb | hb
      · exact h.good b hb
      · exact hgood blobs rfl b hb
    · have hsealed : sealedBlobs (w.trace ++ [.sealTo need held (.ok (some blobs))]) =
          sealedBlobs w.trace ++ blobs := by
        rw [sealedBlobs, flatMap_append]
        exact congrArg _ (append_nil blobs)
      have hmove : (w.pending.flatMap (·.2) ++ dropped ++ blobs).Perm
          (w.pending.flatMap (·.2) ++ blobs ++ dropped) := by
        rw [append_assoc, append_assoc]
        exact perm_append_comm.append_left _
      have hbeside := hperm.append_right blobs
      rw [nil_append, append_assoc] at hbeside
      rw [noteSealed, hpublished, hsealed]
      exact hbeside.trans ((hmove.trans (hpush.symm.append_right dropped)).append_left _)

/-- A walk ends in an error: the last publishes failed. -/
def GaveUp (io : FillIo σ) (W : σ → Prop) (Q : ChannelKeyBlob → Prop) (keys : Nat → Option ChannelKey)
    (pages : List (Int × Except String (List KeyNeed × Bool))) (_ : String) (w : FillWalk σ) :
    Prop :=
  (∃ rest, WalkInv io W Q keys rest w) ∧ pagesAsked w.trace = pages ∧
    maxFailedPublishesInARow ≤ failingRow w.trace

theorem ends_ask {α : Type} {call : σ → Except String α × σ} {event : Except String α → FillEvent}
    {P : FillWalk σ → Prop} {R : Except String α → FillWalk σ → Prop}
    {E : String → FillWalk σ → Prop}
    (h : ∀ w, P w → R (call w.world).1
      { w with world := (call w.world).2, trace := w.trace ++ [event (call w.world).1] }) :
    Ends P (ask call event) R E := h

theorem flatten_chunks {α : Type} (n : Nat) (l : List α) : (chunks n l).flatten = l := by
  fun_induction chunks n l with
  | case1 => rfl
  | case2 l h ih => rw [flatten_cons, ih, take_append_drop]

theorem mem_chunks {α : Type} {n : Nat} {l c : List α} (h : c ∈ chunks n l) :
    c ≠ [] ∧ c.length ≤ n + 1 ∧ ∀ x ∈ c, x ∈ l := by
  fun_induction chunks n l with
  | case1 => exact absurd h not_mem_nil
  | case2 l hne ih =>
    rcases mem_cons.1 h with rfl | h
    · refine ⟨fun hnil => ?_, length_take_le _ _, fun x hx => mem_of_mem_take hx⟩
      exact (take_eq_nil_iff.1 hnil).elim (fun hzero => nomatch hzero) hne
    · obtain ⟨hc, hlen, hmem⟩ := ih h
      exact ⟨hc, hlen, fun x hx => mem_of_mem_drop (hmem x hx)⟩

/-! ## What the walk does -/

/-- What publishing leaves alone. -/
def Stays (ws : List KeyNeed) (pages : List (Int × Except String (List KeyNeed × Bool))) (n : Nat)
    (w : FillWalk σ) : Prop :=
  w.walked = ws ∧ pagesAsked w.trace = pages ∧ w.report.pages = n

section Walk

variable {ws : List KeyNeed} {pages : List (Int × Except String (List KeyNeed × Bool))} {n : Nat}

theorem Stays.ask {event : FillEvent} (h : Stays ws pages n w) (hwalked : w'.walked = w.walked)
    (hreport : w'.report = w.report) (htrace : w'.trace = w.trace ++ [event])
    (hevent : pagesAsked [event] = []) : Stays ws pages n w' := by
  refine ⟨hwalked.trans h.1, ?_, hreport ▸ h.2.2⟩
  rw [htrace, pagesAsked, flatMap_append, ← pagesAsked, ← pagesAsked, h.2.1, hevent]
  exact append_nil pages

theorem Stays.noteSealed (h : Stays ws pages n w)
    (r : Except String (Option (List ChannelKeyBlob))) :
    Stays ws pages n (FillWalk.noteSealed r w) := by
  rcases r with e | _ | blobs
  · exact h
  · exact h
  · exact h

variable (hio : Serves io W Q) (keys)

include hio

theorem ends_publishChunks (rest : List ChannelKeyBlob) (epoch : Nat)
    (pieces : List (List ChannelKeyBlob))
    (hpieces : ∀ c ∈ pieces, c ≠ [] ∧ c.length ≤ maxPublishBlobs ∧ ∀ b ∈ c, b.epoch = epoch) :
    Ends (fun w => WalkInv io W Q keys (pieces.flatten ++ rest) w ∧ w.pending = [] ∧ Stays ws pages n w)
      (publishChunks io epoch pieces)
      (fun _ w => WalkInv io W Q keys rest w ∧ w.pending = [] ∧ Stays ws pages n w)
      (GaveUp io W Q keys pages) := by
  induction pieces with
  | nil => exact Ends.pure fun w hw => hw
  | cons chunk pieces ih =>
    obtain ⟨hchunk, hpieces⟩ := forall_mem_cons.1 hpieces
    have ih := ih hpieces
    rw [publishChunks]
    -- After the request the chunk is published; the counters have still to follow.
    let P : Except String ChannelKeysPublishRes → FillWalk σ → Prop := fun r w =>
      (∀ w' : FillWalk σ, w'.world = w.world → w'.pending = w.pending → w'.keys = w.keys →
        w'.walked = w.walked → w'.trace = w.trace →
        w'.failedInARow = rowAfter w.failedInARow (.publish epoch chunk r) →
          WalkInv io W Q keys (pieces.flatten ++ rest) w') ∧
      (w.pending = [] ∧ Stays ws pages n w) ∧ .publish epoch chunk r ∈ w.trace
    let N : FillWalk σ → Prop := fun w =>
      WalkInv io W Q keys (pieces.flatten ++ rest) w ∧ w.pending = [] ∧ Stays ws pages n w
    refine Ends.bind (Q := P) (ends_ask ?_) fun r => ?_
    · rintro w ⟨hw, hpending, hstays⟩
      refine ⟨fun w' hworld hp hk hwalked htrace hfailed => ?_,
        ⟨hpending, hstays.ask rfl rfl rfl rfl⟩, mem_append_right _ (mem_singleton_self _)⟩
      rw [flatten_cons, append_assoc] at hw
      refine hw.publish hchunk (hworld ▸ hio.publish epoch chunk w.world hw.world hchunk.1
        fun b hb => ⟨hchunk.2.2 b hb, hw.good b ?_⟩) hp hk hwalked htrace hfailed
      exact mem_append_left _ (mem_append_left _ hb)
    rcases r with e | r
    · refine Ends.bind (Q := fun _ => N)
        (Ends.modify fun w hw => ⟨hw.1 _ rfl rfl rfl rfl rfl rfl, hw.2.1⟩) fun _ => ?_
      refine Ends.get_bind fun w hw => Ends.ite (fun hrow => Ends.throw ?_) fun _ => ?_
      · rintro _ rfl
        exact ⟨⟨_, hw.1⟩, hw.2.2.2.1, hw.1.failing ▸ hrow⟩
      · exact ih.conseq (fun _ h => h ▸ hw) (fun _ _ => id) fun _ _ => id
    · refine Ends.ite (fun hsuccess => ?_) fun hsuccess => ?_
      · exact Ends.bind (Q := fun _ => N)
          (Ends.modify fun w hw => ⟨hw.1 _ rfl rfl rfl rfl rfl rfl, hw.2.1⟩) fun _ => ih
      · refine Ends.bind (Q := fun _ w => N w ∧ .publish epoch chunk (.ok r) ∈ w.trace)
          (Ends.modify fun w hw => ⟨⟨hw.1 _ rfl rfl rfl rfl rfl rfl, hw.2.1⟩, hw.2.2⟩) fun _ =>
            Ends.ite (fun hmessage => Ends.modify ?_) fun _ => ?_
        · rintro w ⟨⟨hw, hpending⟩, hmem⟩
          refine ⟨hw.drop (fun b hb => ?_) ⟨chunk, r, hmem, by simpa using hsuccess, hmessage⟩,
            hpending⟩
          obtain ⟨c, hc, hb⟩ := mem_flatten.1 hb
          exact (hpieces c hc).2.2 b hb
        · exact ih.conseq (fun _ h => h.1) (fun _ _ => id) fun _ _ => id

theorem ends_publishPending :
    Ends (fun w => WalkInv io W Q keys [] w ∧ Stays ws pages n w) (publishPending io)
      (fun _ w => WalkInv io W Q keys [] w ∧ w.pending = [] ∧ Stays ws pages n w)
      (GaveUp io W Q keys pages) := by
  rw [publishPending]
  refine Ends.get_bind fun w₀ ⟨hw₀, hstays⟩ => ?_
  -- The blobs of the epochs still to come are in hand.
  let I : List (Nat × List ChannelKeyBlob) → FillWalk σ → Prop := fun done w =>
    ∃ left, w₀.pending = done ++ left ∧ WalkInv io W Q keys (left.flatMap (·.2)) w ∧
      w.pending = [] ∧ Stays ws pages n w
  refine Ends.bind (Q := fun _ => I [])
    (Ends.set fun w hw => ⟨w₀.pending, rfl, ?_, rfl, hstays⟩) fun _ =>
    ((Ends.forM (I := I) fun done p left hsplit => ?_).conseq (fun _ => id) ?_ fun _ _ => id)
  · subst hw
    exact {
      world := hw₀.world
      good := fun b hb => hw₀.good b (by simpa using hb)
      accounted := by
        obtain ⟨dropped, hperm, hdropped⟩ := hw₀.accounted
        exact ⟨dropped, by simpa using hperm, hdropped⟩
      still := hw₀.still
      epochs := fun _ hp => absurd hp not_mem_nil
      sent := hw₀.sent
      replies := hw₀.replies
      failing := hw₀.failing
      looked := hw₀.looked
      exact := hw₀.exact }
  · intro w hw
    obtain ⟨left', hleft, hw, hpending⟩ := hw
    have hcons : left' = p :: left := append_cancel_left (hleft.symm.trans hsplit)
    subst hcons
    have hp : ∀ b ∈ p.2, b.epoch = p.1 := hw₀.epochs p (hleft ▸ mem_append_right _ (.head _))
    refine (ends_publishChunks keys hio (left.flatMap (·.2)) p.1
      (chunks (maxPublishBlobs - 1) p.2) fun c hc => ?_).conseq
        (fun w (hw : WalkInv io W Q keys ((p :: left).flatMap (·.2)) w ∧ w.pending = [] ∧
          Stays ws pages n w) => ?_)
        (fun _ w hw => ⟨left, ?_, hw⟩) (fun _ _ => id) w ⟨hw, hpending⟩
    · obtain ⟨hne, hlen, hmem⟩ := mem_chunks hc
      exact ⟨hne, hlen, fun b hb => hp b (hmem b hb)⟩
    · rwa [flatten_chunks, ← flatMap_cons (f := fun q : Nat × List ChannelKeyBlob => q.2)]
    · rw [hsplit, append_assoc]
      rfl
  · rintro _ w ⟨left, hleft, hw, hpending⟩
    have hnil : left = [] := self_eq_append_right.1 hleft
    subst hnil
    exact ⟨hw, hpending⟩

theorem ends_fillNeed (need : KeyNeed)
    (hneed : ∀ b, b.recipientUid = need.uid → b.epoch ∈ need.epochs → Q b) :
    Ends (fun w => WalkInv io W Q keys [] w ∧ Stays ws pages n w) (fillNeed io need)
      (fun _ w => WalkInv io W Q keys [] w ∧ Stays (ws ++ [need]) pages n w) (GaveUp io W Q keys pages) := by
  rw [fillNeed]
  refine Ends.get_bind fun w₀ ⟨hw₀, hstays⟩ => ?_
  let held := need.epochs.filterMap fun e => (w₀.keys e).map fun k => (e, k)
  have hheld : ∀ e k, (e, k) ∈ held ↔ e ∈ need.epochs ∧ w₀.keys e = some k :=
    fun _ _ => mem_heldOf
  have hsame : (∀ e, ¬ Refused w₀.trace e) → held = heldOf keys need := by
    intro hnone
    have hkeys : w₀.keys = keys := funext fun e =>
      (hw₀.still e).resolve_right fun h => hnone e h.2
    rw [← hkeys]
    rfl
  have hkey : ∀ e ∈ need.epochs, ∀ k, keys e = some k → Refused w₀.trace e ∨ (e, k) ∈ held := by
    intro e he k hk
    rcases hw₀.still e with h | h
    · exact .inr ((hheld e k).2 ⟨he, h.trans hk⟩)
    · exact .inl h.2
  refine Ends.bind (Q := fun _ w => w = { w₀ with walked := w₀.walked ++ [need] })
    (Ends.set fun _ _ => rfl) fun _ => Ends.ite (fun hnone => Ends.pure ?_) fun hsome => ?_
  · -- Nothing is held of what they lack.
    rintro _ rfl
    refine ⟨{ hw₀ with looked := ?_, exact := fun hnone' => ?_ }, ?_⟩
    · intro n hn e he k hk
      rcases mem_append.1 hn with hn | hn
      · exact hw₀.looked n hn e he k hk
      · cases mem_singleton.1 hn
        refine .inl ((hkey e he k hk).resolve_right fun hmem => ?_)
        exact ne_nil_of_mem hmem (List.isEmpty_iff.1 hnone)
    · have hempty : heldOf keys need = [] := (hsame hnone').symm.trans (List.isEmpty_iff.1 hnone)
      rw [hw₀.exact hnone', map_append, filter_append]
      simp [hempty]
    · exact ⟨by rw [hstays.1], hstays.2⟩
  · have hne : held ≠ [] := fun hnil => hsome (List.isEmpty_iff.2 hnil)
    let N : FillWalk σ → Prop := fun w => WalkInv io W Q keys [] w ∧ Stays (ws ++ [need]) pages n w
    refine Ends.bind (Q := fun r w => N (noteSealed r w)) (ends_ask ?_) fun r =>
      Ends.bind (Q := fun _ => N) (Ends.modify fun _ => id) fun _ =>
        Ends.get_bind fun w hw => Ends.ite (fun _ => ?_) fun _ => Ends.pure ?_
    · rintro _ rfl
      have hseals := hio.seals need.username need.uid held w₀.world
      refine ⟨hw₀.sealTo ⟨_, rfl⟩ (fun blobs hr b hb => ?_) hne hkey hsame
        (hio.sealTo _ _ _ _ hw₀.world), ?_⟩
      · have hmem := mem_map_of_mem (f := fun b => (b.recipientUid, b.epoch)) hb
        rw [hseals blobs hr] at hmem
        obtain ⟨p, hp, heq⟩ := mem_map.1 hmem
        obtain ⟨huid, hepoch⟩ := Prod.mk.inj heq
        exact hneed b huid.symm (hepoch ▸ ((hheld p.1 p.2).1 hp).1)
      · have hwalked : Stays (ws ++ [need]) pages n { w₀ with walked := w₀.walked ++ [need] } :=
          ⟨by rw [hstays.1], hstays.2⟩
        have hasked : Stays (ws ++ [need]) pages n { w₀ with
            world := (io.sealTo need.username need.uid held w₀.world).2
            walked := w₀.walked ++ [need]
            trace := w₀.trace ++ [.sealTo need held
              (io.sealTo need.username need.uid held w₀.world).1] } := hwalked.ask rfl rfl rfl rfl
        exact hasked.noteSealed _
    · refine Ends.bind (Q := fun _ => N) ((ends_publishPending keys hio).conseq (fun _ h => h ▸ hw)
        (fun _ _ h => ⟨h.1, h.2.2⟩) fun _ _ => id) fun _ => Ends.modify fun w hw => ?_
      exact ⟨hw.1.of_eq rfl rfl rfl rfl rfl rfl, hw.2⟩
    · rintro _ rfl
      exact hw

theorem ends_walkPage {needs : List KeyNeed} (m : Nat)
    (hneeds : ∀ need ∈ needs, ∀ b : ChannelKeyBlob, b.recipientUid = need.uid →
      b.epoch ∈ need.epochs → Q b) :
    Ends (fun w => WalkInv io W Q keys [] w ∧ Stays ws pages n w) (walkPage io m needs)
      (fun _ w => WalkInv io W Q keys [] w ∧ w.pending = [] ∧ Stays (ws ++ needs) pages (m + 1) w)
      (GaveUp io W Q keys pages) := by
  let I : List KeyNeed → FillWalk σ → Prop := fun done w =>
    WalkInv io W Q keys [] w ∧ Stays (ws ++ done) pages (m + 1) w
  refine Ends.bind (Q := fun _ => I []) (Ends.modify fun w hw => ?_) fun _ =>
    Ends.bind (Q := fun _ => I needs) (Ends.forM fun done need rest hsplit => ?_) fun _ =>
      Ends.bind (ends_publishPending keys hio) fun _ => Ends.modify fun w hw => ?_
  · exact ⟨hw.1.of_eq rfl rfl rfl rfl rfl rfl, by rw [append_nil, hw.2.1], hw.2.2.1, rfl⟩
  · change Ends (I done) _ (fun _ w => WalkInv io W Q keys [] w ∧
      Stays (ws ++ (done ++ [need])) pages (m + 1) w) _
    rw [← append_assoc]
    exact ends_fillNeed keys hio need (hneeds need (hsplit ▸ mem_append_right _ (.head _)))
  · exact ⟨hw.1.of_eq rfl rfl rfl rfl rfl rfl, hw.2⟩

theorem ends_needsPage (after : Int) :
    Ends (fun w => WalkInv io W Q keys [] w ∧ w.pending = [] ∧ Stays ws pages n w)
      (needsPage io after)
      (fun page w => (WalkInv io W Q keys [] w ∧ w.pending = [] ∧ ∃ failed, failed.length ≤ 1 ∧
        (∀ p ∈ failed, ∃ e, p = (after, .error e)) ∧
        Stays ws (pages ++ failed ++ [(after, .ok page)]) n w) ∧
        ∃ s, io.needsAfter after s = (.ok page, w.world))
      (fun _ w => WalkInv io W Q keys [] w ∧ PageLost w.trace ∧
        (pagesAsked w.trace).length = pages.length + 2) := by
  -- A request changes nothing but the history.
  have hask : ∀ {ps} {w : FillWalk σ}, WalkInv io W Q keys [] w ∧ w.pending = [] ∧ Stays ws ps n w →
      WalkInv io W Q keys [] { w with
        world := (io.needsAfter after w.world).2
        trace := w.trace ++ [.needs after (io.needsAfter after w.world).1] } ∧
      w.pending = [] ∧ Stays ws (ps ++ [(after, (io.needsAfter after w.world).1)]) n { w with
        world := (io.needsAfter after w.world).2
        trace := w.trace ++ [.needs after (io.needsAfter after w.world).1] } := by
    rintro ps w ⟨hw, hpending, hwalked, hpages, hcount⟩
    have hnone : ∀ {β : Type} (f : FillEvent → List β) (event : FillEvent), f event = [] →
        (w.trace ++ [event]).flatMap f = w.trace.flatMap f := by
      intro β f event hf
      rw [flatMap_append, flatMap_singleton, hf, append_nil]
    refine ⟨⟨hio.needsAfter after _ hw.world, hw.good, ?_, ?_, hw.epochs, ?_, ?_, ?_, ?_, ?_⟩,
      hpending, hwalked, ?_, hcount⟩
    · obtain ⟨dropped, hperm, hdropped⟩ := hw.accounted
      refine ⟨dropped, ?_, fun b hb => (hdropped b hb).mono _⟩
      rw [published, sealedBlobs, hnone _ _ rfl, hnone _ _ rfl]
      exact hperm
    · exact fun e => (hw.still e).imp id fun hr => ⟨hr.1, hr.2.mono _⟩
    · intro epoch blobs r hmem
      exact hw.sent epoch blobs r ((mem_append.1 hmem).resolve_right fun h =>
        nomatch mem_singleton.1 h)
    · intro need held r hmem
      exact hw.replies need held r ((mem_append.1 hmem).resolve_right fun h =>
        nomatch mem_singleton.1 h)
    · rw [failingRow, foldl_append, ← failingRow]
      exact hw.failing
    · intro need hneed e he k hk
      rcases hw.looked need hneed e he k hk with hr | ⟨held, r, hmem, hheld⟩
      · exact .inl (hr.mono _)
      · exact .inr ⟨held, r, mem_append_left _ hmem, hheld⟩
    · intro hno
      rw [asked, hnone _ _ rfl]
      exact hw.exact fun e hr => hno e (hr.mono _)
    · rw [pagesAsked, flatMap_append, ← pagesAsked, hpages]
      rfl
  refine Ends.bind (Q := fun r w =>
      (WalkInv io W Q keys [] w ∧ w.pending = [] ∧ Stays ws (pages ++ [(after, r)]) n w) ∧
      (∃ before, w.trace = before ++ [.needs after r]) ∧ ∃ s, io.needsAfter after s = (r, w.world))
    (ends_ask fun w hw => ⟨hask hw, ⟨w.trace, rfl⟩, w.world, rfl⟩) fun r => ?_
  rcases r with e | page
  · refine Ends.bind (Q := fun r w =>
        (WalkInv io W Q keys [] w ∧ w.pending = [] ∧
          Stays ws (pages ++ [(after, .error e)] ++ [(after, r)]) n w) ∧
          (∃ before, w.trace = before ++ [.needs after (.error e), .needs after r]) ∧
            ∃ s, io.needsAfter after s = (r, w.world))
      (ends_ask ?_) fun r => ?_
    · rintro w ⟨hw, ⟨before, hbefore⟩, -⟩
      exact ⟨hask hw, ⟨before, by rw [hbefore, append_assoc]; rfl⟩, w.world, rfl⟩
    rcases r with e' | page
    · refine Ends.throw fun w ⟨hw, ⟨before, hbefore⟩, _⟩ =>
        ⟨hw.1, ⟨before, after, e, e', hbefore⟩, ?_⟩
      rw [hw.2.2.2.1, length_append, length_append]
      rfl
    · refine Ends.pure fun w hw =>
        ⟨⟨hw.1.1, hw.1.2.1, [(after, .error e)], Nat.le_refl _, ?_, hw.1.2.2⟩, hw.2.2⟩
      exact fun p hp => ⟨e, mem_singleton.1 hp⟩
  · refine Ends.pure fun w hw => ⟨⟨hw.1.1, hw.1.2.1, [], Nat.zero_le _, fun _ hp => ?_, ?_⟩, hw.2.2⟩
    · exact absurd hp not_mem_nil
    · rw [append_nil]
      exact hw.1.2.2

omit hio in
theorem ends_walkPages {I J : Nat → List KeyNeed → Bool → Int → FillWalk σ → Prop}
    {R : FillWalk σ → Prop} {E : String → FillWalk σ → Prop}
    (hpage : ∀ m needs more after, Ends (I m needs more after) (walkPage io m needs)
      (fun _ => J m needs more after) E)
    (hdone : ∀ m needs more after w, J m needs more after w →
      (needs = [] ∨ ¬ (more = true ∧ m + 1 < maxNeedsPages) ∨
        ∃ last, needs.getLast? = some last ∧ last.uid ≤ after) → R w)
    (hnext : ∀ m needs after last, needs.getLast? = some last → m + 1 < maxNeedsPages →
      after < last.uid → Ends (J m needs true after) (needsPage io last.uid)
        (fun page => I (m + 1) page.1 page.2 last.uid) E)
    (m : Nat) (needs : List KeyNeed) (more : Bool) (after : Int) :
    Ends (I m needs more after) (walkPages io m needs more after) (fun _ => R) E := by
  rw [walkPages]
  refine Ends.bind (hpage m needs more after) fun _ => ?_
  cases hlast : needs.getLast? with
  | none => exact Ends.pure fun w hw => hdone _ _ _ _ w hw (.inl (getLast?_eq_none_iff.1 hlast))
  | some last =>
    by_cases hmore : more = true ∧ m + 1 < maxNeedsPages
    · dsimp only
      rw [dif_pos hmore]
      refine Ends.ite (fun hle => Ends.pure fun w hw => ?_) fun hgt => ?_
      · exact hdone _ _ _ _ w hw (.inr (.inr ⟨last, hlast, hle⟩))
      · rw [hmore.1]
        exact Ends.bind (hnext m needs after last hlast hmore.2 (Int.not_le.1 hgt)) fun page =>
          ends_walkPages hpage hdone hnext (m + 1) page.1 page.2 last.uid
    · dsimp only
      rw [dif_neg hmore]
      exact Ends.pure fun w hw => hdone _ _ _ _ w hw (.inr (.inl hmore))
termination_by maxNeedsPages - m

end Walk

/-! ## What became of every pair -/

def gotNeeds (pages : List (Int × Except String (List KeyNeed × Bool))) : List KeyNeed :=
  pages.flatMap fun
    | (_, .ok page) => page.1
    | _ => []

/-- A publish was accepted. -/
def landed : Except String ChannelKeysPublishRes → Bool
  | .ok res => res.success
  | .error _ => false

/-- A blob for a viewer was in a publish, accepted or not. -/
def Sent (trace : List FillEvent) (success : Bool) (uid : Uid) (epoch : Nat) : Prop :=
  ∃ blobs r, .publish epoch blobs r ∈ trace ∧ (∃ b ∈ blobs, b.recipientUid = uid) ∧
    landed r = success

/-- A viewer could not be sealed to: without an identity, or not looked up. -/
def Unsealed (trace : List FillEvent) (need : KeyNeed) : Prop :=
  ∃ held r, .sealTo need held r ∈ trace ∧ ∀ blobs, r ≠ .ok (some blobs)

theorem WalkInv.fate (hio : Serves io W Q) (h : WalkInv io W Q keys [] w) (hpending : w.pending = []) {need : KeyNeed}
    (hneed : need ∈ w.walked) {e : Nat} (he : e ∈ need.epochs) {k : ChannelKey}
    (hk : keys e = some k) :
    Sent w.trace true need.uid e ∨ Unsealed w.trace need ∨ Sent w.trace false need.uid e ∨
      Refused w.trace e := by
  rcases h.looked need hneed e he k hk with hr | ⟨held, r, hmem, hheld⟩
  · exact .inr (.inr (.inr hr))
  by_cases hr : ∃ blobs, r = .ok (some blobs)
  · obtain ⟨blobs, rfl⟩ := hr
    obtain ⟨b, hb, hpair⟩ : ∃ b ∈ blobs, (b.recipientUid, b.epoch) = (need.uid, e) := by
      have hmap := mem_map_of_mem (f := fun p : Nat × ChannelKey => (need.uid, p.1)) hheld
      obtain ⟨s, hs⟩ := h.replies need held _ hmem
      rw [← hio.seals _ _ _ s blobs hs.symm] at hmap
      exact mem_map.1 hmap
    obtain ⟨huid, hepoch⟩ := Prod.mk.inj hpair
    obtain ⟨dropped, hperm, hdropped⟩ := h.accounted
    have hsealed : b ∈ sealedBlobs w.trace := mem_flatMap.2 ⟨_, hmem, hb⟩
    rw [hpending] at hperm
    rcases mem_append.1 (hperm.mem_iff.1 hsealed) with hpub | hdrop
    · obtain ⟨event, hevent, hin⟩ := mem_flatMap.1 hpub
      rcases event with ⟨_, _⟩ | ⟨_, _, _⟩ | ⟨epoch, chunk, r⟩
      · exact absurd hin not_mem_nil
      · exact absurd hin not_mem_nil
      · -- The publish it went with was answered, one way or the other.
        have hepoch' : epoch = e := ((h.sent epoch chunk r hevent).2.2 b hin).symm.trans hepoch
        subst hepoch'
        rcases hlanded : landed r
        · exact .inr (.inr (.inl ⟨chunk, r, hevent, ⟨b, hin, huid⟩, hlanded⟩))
        · exact .inl ⟨chunk, r, hevent, ⟨b, hin, huid⟩, hlanded⟩
    · exact .inr (.inr (.inr (hepoch ▸ hdropped b hdrop)))
  · exact .inr (.inl ⟨held, r, hmem, fun blobs heq => hr ⟨blobs, heq⟩⟩)

/-- How a walk from the page `first` stands once it has ended. -/
structure Accounts (keys : Nat → Option ChannelKey) (first : List KeyNeed)
    (r : Except String FillReport × FillWalk σ) : Prop where
  /-- It asked for at most 999 further pages, each at most twice. -/
  ends : (pagesAsked r.2.trace).length ≤ 2 * (maxNeedsPages - 1)
  /-- Every publish carries a blob, and at most a publish's worth. -/
  sent : ∀ epoch blobs reply, .publish epoch blobs reply ∈ r.2.trace →
    blobs ≠ [] ∧ blobs.length ≤ maxPublishBlobs
  /-- What is held of what a viewer lacks has landed, unless they could not be sealed to, its
      publish failed, or the epoch is said not to be held. -/
  fate : ∀ report, r.1 = .ok report → ∀ need ∈ first ++ gotNeeds (pagesAsked r.2.trace),
    ∀ e ∈ need.epochs, ∀ k, keys e = some k →
      Sent r.2.trace true need.uid e ∨ Unsealed r.2.trace need ∨
        Sent r.2.trace false need.uid e ∨ Refused r.2.trace e
  /-- It ends in an error only after three failed publishes in a row, or a page lost twice. -/
  gave : ∀ e, r.1 = .error e →
    maxFailedPublishesInARow ≤ failingRow r.2.trace ∨ PageLost r.2.trace

/-- Whatever comes back, the walk ends, and a failure costs what it touched. -/
theorem walk_accounts (hio : Serves io (fun _ => True) fun _ => True)
    (keys : Nat → Option ChannelKey) (first : List KeyNeed) (more : Bool) (world : σ) :
    Accounts keys first (walkFill io keys first more world) := by
  let T : σ → Prop := fun _ => True
  let G : ChannelKeyBlob → Prop := fun _ => True
  let E : String → FillWalk σ → Prop := fun _ w => (∃ rest, WalkInv io T G keys rest w) ∧
    (pagesAsked w.trace).length ≤ 2 * (maxNeedsPages - 1) ∧
    (maxFailedPublishesInARow ≤ failingRow w.trace ∨ PageLost w.trace)
  let R : FillWalk σ → Prop := fun w => WalkInv io T G keys [] w ∧ w.pending = [] ∧
    first ++ gotNeeds (pagesAsked w.trace) = w.walked ∧
    (pagesAsked w.trace).length ≤ 2 * (maxNeedsPages - 1)
  -- Before a page and after it, what came is what was walked, and the page.
  let I : Nat → List KeyNeed → Bool → Int → FillWalk σ → Prop := fun m needs _ _ w =>
    WalkInv io T G keys [] w ∧ ∃ ws pages, Stays ws pages m w ∧
      first ++ gotNeeds pages = ws ++ needs ∧ pages.length ≤ 2 * m ∧ m < maxNeedsPages
  let J : Nat → List KeyNeed → Bool → Int → FillWalk σ → Prop := fun m needs _ _ w =>
    WalkInv io T G keys [] w ∧ w.pending = [] ∧ ∃ ws pages, Stays (ws ++ needs) pages (m + 1) w ∧
      first ++ gotNeeds pages = ws ++ needs ∧ pages.length ≤ 2 * m ∧ m < maxNeedsPages
  have hwalk : Ends (I 0 first more 0) (walkPages io 0 first more 0) (fun _ => R) E := by
    refine ends_walkPages (J := J) ?_ ?_ ?_ 0 first more 0
    · rintro m needs more after w ⟨hw, ws, pages, hstays, hgot, hlen, hm⟩
      refine (ends_walkPage keys hio m fun _ _ _ _ _ => trivial).conseq (fun _ => id)
        (fun _ w hw => ⟨hw.1, hw.2.1, ws, pages, hw.2.2, hgot, hlen, hm⟩)
        (fun _ w hw => ⟨hw.1, ?_, .inl hw.2.2⟩) w ⟨hw, hstays⟩
      rw [hw.2.1]
      omega
    · rintro m needs more after w ⟨hw, hpending, ws, pages, hstays, hgot, hlen, hm⟩ -
      refine ⟨hw, hpending, ?_, ?_⟩
      · rw [hstays.2.1, hgot, hstays.1]
      · rw [hstays.2.1]
        omega
    · rintro m needs after last - hm - w ⟨hw, hpending, ws, pages, hstays, hgot, hlen, -⟩
      refine (ends_needsPage keys hio last.uid).conseq (fun _ => id)
        (fun page w hw => ?_) (fun _ w hw => ⟨⟨[], hw.1⟩, ?_, .inr hw.2.1⟩) w
        ⟨hw, hpending, hstays⟩
      · obtain ⟨⟨hw, -, failed, hfailed, herror, hstays⟩, -⟩ := hw
        have hnone : gotNeeds failed = [] := by
          refine flatMap_eq_nil_iff.2 fun p hp => ?_
          obtain ⟨e, rfl⟩ := herror p hp
          rfl
        refine ⟨hw, ws ++ needs, _, hstays, ?_, ?_, hm⟩
        · rw [gotNeeds, flatMap_append, flatMap_append, ← gotNeeds, ← gotNeeds, hnone,
            append_nil, ← append_assoc, hgot]
          exact congrArg _ (append_nil page.1)
        · rw [length_append, length_append, length_singleton]
          omega
      · rw [hw.2.2]
        omega
  have hend := hwalk { world, keys } ⟨?_, [], [], ⟨rfl, rfl, rfl⟩, by simp [gotNeeds], by decide,
    by decide⟩
  · rw [walkFill]
    rcases hexec : Fallible.exec (walkPages io 0 first more 0) { world, keys } with ⟨e | u, w⟩
    · rw [hexec] at hend
      obtain ⟨⟨rest, hw⟩, hlen, hcause⟩ := hend
      exact ⟨hlen, fun epoch blobs reply h => ⟨(hw.sent epoch blobs reply h).1,
        (hw.sent epoch blobs reply h).2.1⟩, fun _ h => (nomatch h), fun _ _ => hcause⟩
    · rw [hexec] at hend
      obtain ⟨hw, hpending, hwalked, hlen⟩ := hend
      refine ⟨hlen, fun epoch blobs reply h => ⟨(hw.sent epoch blobs reply h).1,
        (hw.sent epoch blobs reply h).2.1⟩, fun _ _ need hneed e he k hk => ?_, fun _ h => nomatch h⟩
      exact hw.fate hio hpending (hwalked ▸ hneed) he hk
  · exact {
      world := trivial
      good := fun _ _ => trivial
      accounted := ⟨[], .refl _, fun _ hb => absurd hb not_mem_nil⟩
      still := fun _ => .inl rfl
      epochs := fun _ hp => absurd hp not_mem_nil
      sent := fun _ _ _ h => absurd h not_mem_nil
      replies := fun _ _ _ h => absurd h not_mem_nil
      failing := rfl
      looked := fun _ h => absurd h not_mem_nil
      exact := fun _ => rfl }

end FillWalk
end Decibell
