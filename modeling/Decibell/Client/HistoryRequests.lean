import Decibell.Lib.Run
import Mathlib.Data.List.Perm.Basic
import Mathlib.Data.List.Nodup

/-!
# History requests

A page of history is asked for and comes back as an event of its own. Each request waits in the list
of its channel or conversation until a reply settles it, its time is up, native refuses it or its
connection is lost. A reply has no number: it goes to the longest-waiting request that has the
cursor it names.
-/

namespace Decibell.HistoryRequests

open Lib Option

/-! ## Requests -/

/-- What a connection's loss abandons. -/
inductive Scope
  | community (serverId : String)
  | central
deriving DecidableEq

/-- The history asked for; a channel's id has no colon. -/
inductive WaitKey
  | channel (serverId channelId : String)
  | dm (peer : Int)
deriving DecidableEq

def WaitKey.scope : WaitKey → Scope
  | channel serverId _ => .community serverId
  | dm _ => .central

structure HistoryReply where
  newestId : Int
  hasMoreAfter : Bool
deriving DecidableEq

/-- A cursor that is left out is 0. -/
structure HistoryRequest where
  beforeId : Int := 0
  afterId : Int := 0
  aroundId : Int := 0
  limit : Int

inductive Mode
  | before
  | after
  | around
deriving DecidableEq

def modeOf (req : HistoryRequest) : Mode × Int :=
  if req.aroundId > 0 then (.around, req.aroundId)
  else if req.afterId > 0 then (.after, req.afterId)
  else (.before, 0)

structure Waiter where
  id : Nat
  key : WaitKey
  mode : Mode
  cursor : Int
deriving DecidableEq

/-- A request on its connection. -/
structure Sent where
  id : Nat
  key : WaitKey
  req : HistoryRequest

/-- The cursors a reply names: none for a history that may not be read. -/
def Sent.echo (e : Sent) (granted : Bool) : Int × Int :=
  if granted then (e.req.aroundId, e.req.afterId) else (0, 0)

/-- The waits that `settle` looks for. -/
def Waiter.isFor (key : WaitKey) (echo : Int × Int) (w : Waiter) : Bool :=
  w.key = key ∧
    if echo.1 > 0 then w.mode = .around ∧ w.cursor = echo.1
    else if echo.2 > 0 then w.mode = .after ∧ w.cursor = echo.2
    else w.mode = .before

structure Requests where
  next : Nat := 0
  /-- The requests whose promises there are. -/
  tracked : List Nat := []
  /-- The lists of all keys, in the order of the requests. -/
  waiters : List Waiter := []
  /-- The promises settled, and with what. -/
  settled : List (Nat × Option HistoryReply) := []
  /-- The requests native refused, whose rejections are to come. -/
  refused : List Nat := []
  /-- Each connection's requests whose replies are to come, oldest first. -/
  wire : Scope → List Sent := fun _ => []
  /-- The replies that came, each with the request that it answers. -/
  answered : List (Nat × HistoryReply) := []

namespace Requests

variable (s : Requests)

/-- `done` of a waiter. -/
def done (id : Nat) (reply : Option HistoryReply) : Requests :=
  if id ∈ s.settled.map (·.1) then s
  else { s with
    waiters := s.waiters.filter (·.id ≠ id)
    settled := s.settled ++ [(id, reply)] }

def settle (key : WaitKey) (echo : Int × Int) (reply : HistoryReply) : Requests :=
  match s.waiters.find? (Waiter.isFor key echo) with
  | some w => s.done w.id (some reply)
  | none => s

def abandon (scope : Scope) : Requests :=
  let gone := s.waiters.filter (·.key.scope = scope)
  { s with
    waiters := s.waiters.filter (·.key.scope ≠ scope)
    settled := s.settled ++ gone.map fun w => (w.id, none) }

def track (key : WaitKey) (req : HistoryRequest) : Requests :=
  { s with
    next := s.next + 1
    tracked := s.tracked ++ [s.next]
    waiters := s.waiters ++ [⟨s.next, key, (modeOf req).1, (modeOf req).2⟩] }

/-- The requests of a connection change. -/
def rewire (scope : Scope) (left : List Sent) : Requests :=
  { s with wire := Function.update s.wire scope left }

/-- A request goes out on its connection. -/
def send (id : Nat) (key : WaitKey) (req : HistoryRequest) : Requests :=
  s.rewire key.scope (s.wire key.scope ++ [⟨id, key, req⟩])

/-- Native refuses a request; its rejection comes later. -/
def refuse (id : Nat) : Requests := { s with refused := s.refused ++ [id] }

/-- The oldest request of a connection is answered. -/
def answer (scope : Scope) (e : Sent) (reply : HistoryReply) : Requests :=
  { s.rewire scope (s.wire scope).tail with answered := s.answered ++ [(e.id, reply)] }

end Requests

inductive Event
  /-- `requestChannelHistory`, `requestDmHistory`; `sent`: native takes it. -/
  | request (key : WaitKey) (req : HistoryRequest) (sent : Bool)
  /-- A page asked for when direct messages get keys, untracked. -/
  | reloadDms (peer : Int)
  | rejected (id : Nat)
  | timeout (id : Nat)
  | reply (scope : Scope) (granted : Bool) (reply : HistoryReply)
  /-- A connection is lost or replaced; native has some replies already. -/
  | lost (scope : Scope) (received : Nat)

namespace Requests

variable (s : Requests)

/-- The state after an event that can happen; a waiting request has its timer set. -/
def apply : Event → Option Requests
  | .request key req true => some ((s.track key req).send s.next key req)
  | .request key req false => some ((s.track key req).refuse s.next)
  | .reloadDms peer => some ({ s with next := s.next + 1 }.send s.next (.dm peer) { limit := 50 })
  | .rejected id =>
    if id ∈ s.refused then some ({ s with refused := s.refused.erase id }.done id none) else none
  | .timeout id => if id ∈ s.waiters.map (·.id) then some (s.done id none) else none
  | .reply scope granted reply =>
    (s.wire scope).head?.map fun e => (s.answer scope e reply).settle e.key (e.echo granted) reply
  | .lost scope received => some ((s.rewire scope ((s.wire scope).take received)).abandon scope)

end Requests

def system : System Requests Event where
  init s := s = {}
  step s e s' := s.apply e = some s'

/-! ## Settled once -/

namespace Requests

variable {s s' : Requests}

/-- The ids on a connection, and those that wait. -/
def sentIds (s : Requests) (scope : Scope) : List Nat := (s.wire scope).map (·.id)

def waitingIds (s : Requests) : List Nat := s.waiters.map (·.id)

/-- Promises are settled or wait, each once; all in the order of the requests. -/
structure Sound (s : Requests) : Prop where
  promises : (s.settled.map (·.1) ++ s.waitingIds).Perm s.tracked
  tracked_sorted : s.tracked.Pairwise (· < ·)
  tracked_lt : ∀ id ∈ s.tracked, id < s.next
  waiting_sorted : s.waitingIds.Pairwise (· < ·)
  refused_tracked : ∀ id ∈ s.refused, id ∈ s.tracked
  wire_sorted : ∀ scope, (s.sentIds scope).Pairwise (· < ·)
  wire_lt : ∀ scope, ∀ id ∈ s.sentIds scope, id < s.next
  wire_scope : ∀ scope, ∀ e ∈ s.wire scope, e.key.scope = scope

theorem Sound.nodup_promises (h : s.Sound) : (s.settled.map (·.1) ++ s.waitingIds).Nodup :=
  h.promises.nodup_iff.2 (h.tracked_sorted.imp Nat.ne_of_lt)

theorem Sound.not_settled (h : s.Sound) {id : Nat} (hid : id ∈ s.waitingIds) :
    id ∉ s.settled.map (·.1) := fun hsettled =>
  List.disjoint_of_nodup_append h.nodup_promises hsettled hid

theorem Sound.waiting_lt (h : s.Sound) {id : Nat} (hid : id ∈ s.waitingIds) : id < s.next :=
  h.tracked_lt id (h.promises.subset (List.mem_append_right _ hid))

theorem Sound.done_eq (h : s.Sound) {id : Nat} (hid : id ∈ s.waitingIds)
    (reply : Option HistoryReply) : s.done id reply = { s with
      waiters := s.waiters.filter (·.id ≠ id), settled := s.settled ++ [(id, reply)] } :=
  if_neg (h.not_settled hid)

theorem Sound.waitingIds_done (h : s.Sound) {id : Nat} (hid : id ∈ s.waitingIds)
    (reply : Option HistoryReply) :
    (s.done id reply).waitingIds = s.waitingIds.filter (· ≠ id) := by
  rw [h.done_eq hid, waitingIds, waitingIds, List.filter_map]
  rfl

theorem Sound.done (h : s.Sound) {id : Nat} (hid : id ∈ s.tracked) (reply : Option HistoryReply) :
    (s.done id reply).Sound := by
  by_cases hsettled : id ∈ s.settled.map (·.1)
  · rw [Requests.done, if_pos hsettled]
    exact h
  · have hwaits : id ∈ s.waitingIds :=
      (List.mem_append.1 (h.promises.symm.subset hid)).resolve_left hsettled
    have hids := h.waitingIds_done hwaits reply
    have hnodup : s.waitingIds.Nodup := h.waiting_sorted.imp Nat.ne_of_lt
    have hpromises : ((s.done id reply).settled.map (·.1) ++ (s.done id reply).waitingIds).Perm
        s.tracked := by
      rw [hids, h.done_eq hwaits, List.map_append, List.append_assoc]
      refine (List.Perm.append_left _ ?_).trans h.promises
      have herase : s.waitingIds.filter (· ≠ id) = s.waitingIds.erase id :=
        ((hnodup.erase_eq_filter id).trans (List.filter_congr fun x _ => by
          simp [bne, beq_eq_decide])).symm
      rw [herase]
      exact (List.perm_cons_erase hwaits).symm
    have hsorted : (s.done id reply).waitingIds.Pairwise (· < ·) := by
      rw [hids]
      exact h.waiting_sorted.filter _
    rw [h.done_eq hwaits] at hpromises hsorted ⊢
    exact { h with promises := hpromises, waiting_sorted := hsorted }

theorem Sound.settle (h : s.Sound) (key : WaitKey) (echo : Int × Int) (reply : HistoryReply) :
    (s.settle key echo reply).Sound := by
  rw [Requests.settle]
  split
  · rename_i w hw
    refine h.done (h.promises.subset (List.mem_append_right _ ?_)) _
    exact List.mem_map_of_mem (List.mem_of_find?_eq_some hw)
  · exact h

theorem Sound.abandon (h : s.Sound) (scope : Scope) : (s.abandon scope).Sound where
  promises := by
    have hsplit := List.filter_append_perm (fun w : Waiter => w.key.scope = scope) s.waiters
    have hkept : s.waiters.filter (fun w => w.key.scope ≠ scope) =
        s.waiters.filter fun w => !decide (w.key.scope = scope) :=
      List.filter_congr fun w _ => decide_not
    rw [Requests.abandon, waitingIds, hkept, List.map_append, List.map_map, List.append_assoc]
    refine (List.Perm.append_left _ ?_).trans h.promises
    have := hsplit.map (·.id)
    rwa [List.map_append] at this
  tracked_sorted := h.tracked_sorted
  tracked_lt := h.tracked_lt
  waiting_sorted := h.waiting_sorted.sublist (List.filter_sublist.map _)
  refused_tracked := h.refused_tracked
  wire_sorted := h.wire_sorted
  wire_lt := h.wire_lt
  wire_scope := h.wire_scope

theorem waitingIds_track (key : WaitKey) (req : HistoryRequest) :
    (s.track key req).waitingIds = s.waitingIds ++ [s.next] := List.map_append

theorem Sound.track (h : s.Sound) (key : WaitKey) (req : HistoryRequest) :
    (s.track key req).Sound where
  promises := by
    rw [waitingIds_track, ← List.append_assoc]
    exact h.promises.append_right _
  tracked_sorted := by
    refine List.pairwise_append.2 ⟨h.tracked_sorted, List.pairwise_singleton _ _, ?_⟩
    intro id hid _ hnext
    rw [List.mem_singleton.1 hnext]
    exact h.tracked_lt id hid
  tracked_lt id hid := by
    rcases List.mem_append.1 hid with hid | hid
    · exact Nat.lt_succ_of_lt (h.tracked_lt id hid)
    · exact Nat.lt_succ_of_le (Nat.le_of_eq (List.mem_singleton.1 hid))
  waiting_sorted := by
    rw [waitingIds_track]
    refine List.pairwise_append.2 ⟨h.waiting_sorted, List.pairwise_singleton _ _, ?_⟩
    intro id hid _ hnext
    rw [List.mem_singleton.1 hnext]
    exact h.waiting_lt hid
  refused_tracked id hid := List.mem_append_left _ (h.refused_tracked id hid)
  wire_sorted := h.wire_sorted
  wire_lt scope id hid := Nat.lt_succ_of_lt (h.wire_lt scope id hid)
  wire_scope := h.wire_scope

theorem wire_rewire {scope scope' : Scope} {left : List Sent} :
    (s.rewire scope left).wire scope' = if scope' = scope then left else s.wire scope' :=
  Function.update_apply _ _ _ _

theorem Sound.rewire (h : s.Sound) {scope : Scope} {left : List Sent}
    (hsorted : (left.map (·.id)).Pairwise (· < ·)) (hlt : ∀ id ∈ left.map (·.id), id < s.next)
    (hscope : ∀ e ∈ left, e.key.scope = scope) : (s.rewire scope left).Sound where
  promises := h.promises
  tracked_sorted := h.tracked_sorted
  tracked_lt := h.tracked_lt
  waiting_sorted := h.waiting_sorted
  refused_tracked := h.refused_tracked
  wire_sorted scope' := by
    rw [sentIds, wire_rewire]
    split
    · exact hsorted
    · exact h.wire_sorted scope'
  wire_lt scope' := by
    rw [sentIds, wire_rewire]
    split
    · exact hlt
    · exact h.wire_lt scope'
  wire_scope scope' := by
    rw [wire_rewire]
    split
    · rename_i heq
      exact heq ▸ hscope
    · exact h.wire_scope scope'

theorem Sound.send (h : s.Sound) {id : Nat} {key : WaitKey} (hlt : id < s.next)
    (hlast : ∀ id' ∈ s.sentIds key.scope, id' < id) (req : HistoryRequest) :
    (s.send id key req).Sound := by
  refine h.rewire ?_ (fun id' hid' => ?_) fun e he => ?_
  · rw [List.map_append]
    refine List.pairwise_append.2 ⟨h.wire_sorted key.scope, List.pairwise_singleton _ _, ?_⟩
    intro id' hid' _ hid
    rw [List.mem_singleton.1 hid]
    exact hlast id' hid'
  · rw [List.map_append] at hid'
    rcases List.mem_append.1 hid' with hid' | hid'
    · exact h.wire_lt key.scope id' hid'
    · exact (List.mem_singleton.1 hid').symm ▸ hlt
  · rcases List.mem_append.1 he with he | he
    · exact h.wire_scope key.scope e he
    · rw [List.mem_singleton.1 he]

theorem Sound.rewire_sublist (h : s.Sound) {scope : Scope} {left : List Sent}
    (hleft : left.Sublist (s.wire scope)) : (s.rewire scope left).Sound :=
  h.rewire ((h.wire_sorted scope).sublist (hleft.map _))
    (fun id hid => h.wire_lt scope id ((hleft.map _).mem hid))
    fun e he => h.wire_scope scope e (hleft.mem he)

theorem Sound.apply (h : s.Sound) {e : Event} (hs : s.apply e = some s') : s'.Sound := by
  cases e with
  | request key req sent =>
    cases sent with
    | true =>
      cases hs
      exact (h.track key req).send (Nat.lt_succ_self _) (fun id hid => h.wire_lt _ id hid) req
    | false =>
      cases hs
      refine { h.track key req with refused_tracked := fun id hid => ?_ }
      rcases List.mem_append.1 hid with hid | hid
      · exact List.mem_append_left _ (h.refused_tracked id hid)
      · exact List.mem_append_right _ hid
  | reloadDms peer =>
    cases hs
    have hnext : Sound { s with next := s.next + 1 } := { h with
      tracked_lt := fun id hid => Nat.lt_succ_of_lt (h.tracked_lt id hid)
      wire_lt := fun scope id hid => Nat.lt_succ_of_lt (h.wire_lt scope id hid) }
    exact hnext.send (Nat.lt_succ_self _) (fun id hid => h.wire_lt _ id hid) _
  | rejected id =>
    rw [Requests.apply] at hs
    split at hs
    · rename_i hid
      cases hs
      have hsound : Sound { s with refused := s.refused.erase id } := { h with
        refused_tracked := fun id hid => h.refused_tracked id (List.mem_of_mem_erase hid) }
      exact hsound.done (h.refused_tracked id hid) none
    · cases hs
  | timeout id =>
    rw [Requests.apply] at hs
    split at hs
    · rename_i hid
      cases hs
      exact h.done (h.promises.subset (List.mem_append_right _ hid)) none
    · cases hs
  | reply scope granted reply =>
    obtain ⟨e, he, rfl⟩ := map_eq_some_iff.1 hs
    have hanswer : (s.answer scope e reply).Sound :=
      { h.rewire_sublist (List.tail_sublist _) with }
    exact hanswer.settle _ _ reply
  | lost scope received =>
    cases hs
    exact (h.rewire_sublist (List.take_sublist _ _)).abandon scope

theorem sound_of_reachable (hs : system.Reachable s) : s.Sound := by
  refine System.reachable_invariant (fun s h => ?_) (fun _ _ _ h hstep => h.apply hstep) hs
  subst h
  exact ⟨.refl _, .nil, nofun, .nil, nofun, fun _ => .nil, nofun, nofun⟩

/-! ## Replies that settle their own request -/

/-- A reply to come is careful. Its request, if it waits, has the cursor named, and no request of
    that cursor that native refused waits before it; if not, the reply could be for none that waits.
    -/
def Careful (s : Requests) : Event → Prop
  | .reply scope granted _ => ∀ e ∈ (s.wire scope).head?,
    if e.id ∈ s.waitingIds then
      (∀ w ∈ s.waiters, w.id = e.id → w.isFor e.key (e.echo granted)) ∧
        ∀ w ∈ s.waiters, w.isFor e.key (e.echo granted) → w.id < e.id → w.id ∉ s.refused
    else ∀ w ∈ s.waiters, ¬ w.isFor e.key (e.echo granted)
  | _ => True

/-- A reply settles only the request it answers, if that waits. -/
def SettlesOwn (s : Requests) (e : Event) (s' : Requests) : Prop :=
  match e with
  | .reply scope _ reply => ∀ e ∈ (s.wire scope).head?,
    s'.settled = s.settled ++ if e.id ∈ s.waitingIds then [(e.id, some reply)] else []
  | _ => ∀ id reply, (id, some reply) ∈ s'.settled → (id, some reply) ∈ s.settled

/-- Every waiting request has its reply to come, or its rejection. -/
def Pending (s : Requests) : Prop :=
  ∀ w ∈ s.waiters, w.id ∈ s.refused ∨ w.id ∈ s.sentIds w.key.scope

theorem find?_eq_some_iff {waiters : List Waiter} (hsorted : (waiters.map (·.id)).Pairwise (· < ·))
    {p : Waiter → Bool} {w : Waiter} :
    waiters.find? p = some w ↔ w ∈ waiters ∧ p w ∧ ∀ v ∈ waiters, p v → w.id ≤ v.id := by
  induction waiters with
  | nil => simp
  | cons v waiters ih =>
    rw [List.map_cons, List.pairwise_cons] at hsorted
    have hlater : ∀ u ∈ waiters, v.id < u.id := fun u hu => hsorted.1 u.id (List.mem_map_of_mem hu)
    cases hv : p v with
    | true =>
      rw [List.find?_cons_of_pos hv, some_inj]
      constructor
      · rintro rfl
        refine ⟨.head _, hv, fun u hu _ => ?_⟩
        rcases List.mem_cons.1 hu with rfl | hu
        · exact Nat.le_refl _
        · exact Nat.le_of_lt (hlater u hu)
      · rintro ⟨hw, -, hfirst⟩
        rcases List.mem_cons.1 hw with rfl | hw
        · rfl
        · exact absurd (hfirst v (.head _) hv) (Nat.not_le.2 (hlater w hw))
    | false =>
      rw [List.find?_cons_of_neg (by simp [hv]), ih hsorted.2]
      constructor
      · rintro ⟨hw, hpw, hfirst⟩
        refine ⟨.tail _ hw, hpw, fun u hu hpu => ?_⟩
        rcases List.mem_cons.1 hu with rfl | hu
        · exact absurd (hpu.symm.trans hv) (by decide)
        · exact hfirst u hu hpu
      · rintro ⟨hw, hpw, hfirst⟩
        refine ⟨(List.mem_cons.1 hw).resolve_left ?_, hpw, fun u hu => hfirst u (.tail _ hu)⟩
        rintro rfl
        exact absurd (hpw.symm.trans hv) (by decide)

theorem settled_settle (h : s.Sound) (key : WaitKey) (echo : Int × Int) (reply : HistoryReply) :
    (s.settle key echo reply).settled = s.settled ++
      ((s.waiters.find? (Waiter.isFor key echo)).map fun w => (w.id, some reply)).toList := by
  rw [settle]
  split
  · rename_i w hw
    rw [h.done_eq (List.mem_map_of_mem (List.mem_of_find?_eq_some hw)), hw]
    rfl
  · rename_i hnone
    rw [hnone]
    exact (List.append_nil _).symm

/-- A reply is taken for its own request's exactly when it is careful. -/
theorem find?_of_waits (h : s.Sound) (hpending : s.Pending) {scope : Scope} {e : Sent}
    (he : (s.wire scope).head? = some e) {w : Waiter} (hw : w ∈ s.waiters) (hid : w.id = e.id)
    (echo : Int × Int) : s.waiters.find? (Waiter.isFor e.key echo) = some w ↔
      (∀ v ∈ s.waiters, v.id = e.id → v.isFor e.key echo) ∧
        ∀ v ∈ s.waiters, v.isFor e.key echo → v.id < e.id → v.id ∉ s.refused := by
  have hsame : ∀ v ∈ s.waiters, v.id = e.id → v = w := fun v hv hve =>
    List.inj_on_of_nodup_map (h.waiting_sorted.imp Nat.ne_of_lt) hv hw (hve.trans hid.symm)
  rw [find?_eq_some_iff h.waiting_sorted]
  constructor
  · rintro ⟨-, hfor, hfirst⟩
    refine ⟨fun v hv hve => hsame v hv hve ▸ hfor, fun v hv hvfor hlt => ?_⟩
    exact absurd (hfirst v hv hvfor) (Nat.not_le.2 (hid ▸ hlt))
  · rintro ⟨hfor, hrefused⟩
    refine ⟨hw, hfor w hw hid, fun v hv hvfor => ?_⟩
    by_contra hlt
    rw [Nat.not_le, hid] at hlt
    -- an older request that was sent would still be ahead on the connection
    rcases hpending v hv with hv' | hv'
    · exact hrefused v hv hvfor hlt hv'
    · have hkey : v.key = e.key := (of_decide_eq_true hvfor).1
      have hmem : e ∈ s.wire scope := List.mem_of_mem_head? he
      rw [hkey, h.wire_scope scope e hmem] at hv'
      obtain ⟨rest, hrest⟩ : ∃ rest, s.wire scope = e :: rest := List.head?_eq_some_iff.1 he
      have hsorted := h.wire_sorted scope
      rw [sentIds, hrest, List.map_cons] at hsorted hv'
      rcases List.mem_cons.1 hv' with hv' | hv'
      · exact absurd hv' (Nat.ne_of_lt hlt)
      · exact absurd ((List.pairwise_cons.1 hsorted).1 _ hv') (Nat.not_lt.2 (Nat.le_of_lt hlt))

theorem settled_done {id id' : Nat} {reply : HistoryReply}
    (h : (id', some reply) ∈ (s.done id none).settled) : (id', some reply) ∈ s.settled := by
  rw [done] at h
  split at h
  · exact h
  · simpa using h

theorem settlesOwn_iff (h : s.Sound) (hpending : s.Pending) {e : Event} (hs : s.apply e = some s') :
    s.SettlesOwn e s' ↔ s.Careful e := by
  cases e with
  | reply scope granted reply =>
    obtain ⟨e, he, rfl⟩ := map_eq_some_iff.1 hs
    have hanswer : (s.answer scope e reply).Sound :=
      { h.rewire_sublist (List.tail_sublist _) with }
    have hsettled := settled_settle hanswer e.key (e.echo granted) reply
    change _ = s.settled ++ ((s.waiters.find? (Waiter.isFor e.key (e.echo granted))).map _).toList
      at hsettled
    rw [SettlesOwn, Careful]
    simp only [he, mem_some_iff, forall_eq']
    rw [hsettled, List.append_cancel_left_eq]
    by_cases hwaits : e.id ∈ s.waitingIds
    · obtain ⟨w, hw, hid⟩ := List.mem_map.1 hwaits
      rw [if_pos hwaits, if_pos hwaits, ← find?_of_waits h hpending he hw hid (e.echo granted)]
      constructor
      · intro hfound
        cases hv : s.waiters.find? (Waiter.isFor e.key (e.echo granted)) with
        | none => simp [hv] at hfound
        | some v =>
          rw [hv] at hfound
          have hve : v.id = e.id := by simpa using hfound
          rw [List.inj_on_of_nodup_map (h.waiting_sorted.imp Nat.ne_of_lt)
            (List.mem_of_find?_eq_some hv) hw (hve.trans hid.symm)]
      · intro hfound
        rw [hfound, ← hid]
        rfl
    · rw [if_neg hwaits, if_neg hwaits, ← List.find?_eq_none]
      cases s.waiters.find? (Waiter.isFor e.key (e.echo granted)) with
      | none => simp
      | some v => simp
  | request key req sent =>
    cases sent with
    | true =>
      cases hs
      exact ⟨fun _ => trivial, fun _ _ _ hmem => hmem⟩
    | false =>
      cases hs
      exact ⟨fun _ => trivial, fun _ _ _ hmem => hmem⟩
  | reloadDms peer =>
    cases hs
    exact ⟨fun _ => trivial, fun _ _ _ hmem => hmem⟩
  | rejected id =>
    rw [Requests.apply] at hs
    split at hs
    · cases hs
      exact ⟨fun _ => trivial, fun _ _ _ hmem =>
        settled_done (s := { s with refused := s.refused.erase id }) hmem⟩
    · cases hs
  | timeout id =>
    rw [Requests.apply] at hs
    split at hs
    · cases hs
      exact ⟨fun _ => trivial, fun _ _ _ hmem => settled_done hmem⟩
    · cases hs
  | lost scope received =>
    cases hs
    refine ⟨fun _ => trivial, fun _ id reply hmem => ?_⟩
    rcases List.mem_append.1 hmem with hmem | hmem
    · exact hmem
    · obtain ⟨w, -, heq⟩ := List.mem_map.1 hmem
      cases heq

/-! ## Runs -/

theorem mem_waiters_done {id : Nat} {reply : Option HistoryReply} {w : Waiter} (h : s.Sound)
    (hw : w ∈ (s.done id reply).waiters) : w ∈ s.waiters ∧ w.id ≠ id := by
  rw [done] at hw
  split at hw
  · rename_i hsettled
    exact ⟨hw, fun hid => h.not_settled (List.mem_map_of_mem hw) (hid ▸ hsettled)⟩
  · simpa using hw

theorem mem_waiters_settle {key : WaitKey} {echo : Int × Int} {reply : HistoryReply} {w : Waiter}
    (h : s.Sound) (hw : w ∈ (s.settle key echo reply).waiters) : w ∈ s.waiters := by
  rw [settle] at hw
  split at hw
  · exact (mem_waiters_done h hw).1
  · exact hw

theorem done_rest (id : Nat) (reply : Option HistoryReply) : (s.done id reply).wire = s.wire ∧
    (s.done id reply).refused = s.refused ∧ (s.done id reply).answered = s.answered := by
  rw [done]
  split
  · exact ⟨rfl, rfl, rfl⟩
  · exact ⟨rfl, rfl, rfl⟩

theorem settle_rest (key : WaitKey) (echo : Int × Int) (reply : HistoryReply) :
    (s.settle key echo reply).wire = s.wire ∧ (s.settle key echo reply).refused = s.refused ∧
      (s.settle key echo reply).answered = s.answered := by
  rw [settle]
  split
  · exact done_rest _ _
  · exact ⟨rfl, rfl, rfl⟩

theorem sentIds_send {id : Nat} {key : WaitKey} {req : HistoryRequest} {scope : Scope} :
    (s.send id key req).sentIds scope =
      s.sentIds scope ++ if scope = key.scope then [id] else [] := by
  rw [sentIds, send, wire_rewire]
  split
  · rename_i heq
    subst heq
    exact List.map_append
  · exact (List.append_nil _).symm

theorem Pending.send {id : Nat} {key : WaitKey} {req : HistoryRequest} (h : s.Pending) :
    (s.send id key req).Pending := fun w hw => by
  rw [sentIds_send]
  exact (h w hw).imp_right fun hsent => List.mem_append_left _ hsent

theorem Pending.apply (hpending : s.Pending) (h : s.Sound) {e : Event} (hs : s.apply e = some s')
    (hcareful : s.Careful e) : s'.Pending := by
  have hsettles := (settlesOwn_iff h hpending hs).2 hcareful
  have hsound := h.apply hs
  cases e with
  | request key req sent =>
    cases sent with
    | true =>
      cases hs
      intro w hw
      rw [sentIds_send]
      rcases List.mem_append.1 hw with hw | hw
      · exact (hpending w hw).imp_right fun hsent => List.mem_append_left _ hsent
      · rw [List.mem_singleton.1 hw, if_pos rfl]
        exact .inr (List.mem_append_right _ (.head _))
    | false =>
      cases hs
      intro w hw
      rcases List.mem_append.1 hw with hw | hw
      · exact (hpending w hw).imp_left fun hrefused => List.mem_append_left _ hrefused
      · rw [List.mem_singleton.1 hw]
        exact .inl (List.mem_append_right _ (.head _))
  | reloadDms peer =>
    cases hs
    exact Pending.send (s := { s with next := s.next + 1 }) hpending
  | rejected id =>
    rw [Requests.apply] at hs
    split at hs
    · cases hs
      intro w hw
      have hleft : Sound { s with refused := s.refused.erase id } := { h with
        refused_tracked := fun id hid => h.refused_tracked id (List.mem_of_mem_erase hid) }
      obtain ⟨hw, hne⟩ := mem_waiters_done hleft hw
      rw [(done_rest id none).2.1, sentIds, (done_rest id none).1]
      exact (hpending w hw).imp_left (List.mem_erase_of_ne hne).2
    · cases hs
  | timeout id =>
    rw [Requests.apply] at hs
    split at hs
    · cases hs
      intro w hw
      rw [(done_rest id none).2.1, sentIds, (done_rest id none).1]
      exact hpending w (mem_waiters_done h hw).1
    · cases hs
  | reply scope granted reply =>
    obtain ⟨e, he, rfl⟩ := map_eq_some_iff.1 hs
    have hanswer : (s.answer scope e reply).Sound :=
      { h.rewire_sublist (List.tail_sublist _) with }
    intro w hw
    have hwaits : w ∈ (s.answer scope e reply).waiters := mem_waiters_settle hanswer hw
    change w ∈ s.waiters at hwaits
    have hrest := settle_rest (s := s.answer scope e reply) e.key (e.echo granted) reply
    rw [hrest.2.1, sentIds, hrest.1]
    refine (hpending w hwaits).imp_right fun hsent => ?_
    change w.id ∈ ((s.rewire scope (s.wire scope).tail).wire w.key.scope).map (·.id)
    rw [wire_rewire]
    split
    · rename_i heq
      obtain ⟨left, hleft⟩ : ∃ left, s.wire scope = e :: left := List.head?_eq_some_iff.1 he
      rw [heq, sentIds, hleft, List.map_cons] at hsent
      rw [hleft, List.tail_cons]
      refine (List.mem_cons.1 hsent).resolve_left fun hid => ?_
      -- the request that is answered waits no longer
      have hsettled := hsettles e he
      rw [if_pos (hid ▸ List.mem_map_of_mem hwaits : e.id ∈ s.waitingIds)] at hsettled
      refine hsound.not_settled (List.mem_map_of_mem hw) ?_
      rw [hsettled, List.map_append]
      exact List.mem_append_right _ (hid ▸ .head _)
    · exact hsent
  | lost scope received =>
    cases hs
    intro w hw
    obtain ⟨hw, hne⟩ := List.mem_filter.1 hw
    have hne : w.key.scope ≠ scope := of_decide_eq_true hne
    refine (hpending w hw).imp_right fun hsent => ?_
    change w.id ∈ ((s.rewire scope _).wire w.key.scope).map (·.id)
    rwa [wire_rewire, if_neg hne]

def Own (s : Requests) : Prop := ∀ id reply, (id, some reply) ∈ s.settled → (id, reply) ∈ s.answered

theorem answered_apply {e : Event} (hs : s.apply e = some s') : s.answered ⊆ s'.answered := by
  cases e with
  | request key req sent =>
    cases sent with
    | true =>
      cases hs
      exact List.Subset.refl _
    | false =>
      cases hs
      exact List.Subset.refl _
  | reloadDms peer =>
    cases hs
    exact List.Subset.refl _
  | rejected id =>
    rw [Requests.apply] at hs
    split at hs
    · cases hs
      rw [(done_rest id none).2.2]
      exact List.Subset.refl _
    · cases hs
  | timeout id =>
    rw [Requests.apply] at hs
    split at hs
    · cases hs
      rw [(done_rest id none).2.2]
      exact List.Subset.refl _
    · cases hs
  | reply scope granted reply =>
    obtain ⟨e, he, rfl⟩ := map_eq_some_iff.1 hs
    rw [(settle_rest e.key (e.echo granted) reply).2.2]
    exact List.subset_append_left _ _
  | lost scope received =>
    cases hs
    exact List.Subset.refl _

theorem Own.apply (hown : s.Own) (hpending : s.Pending) (h : s.Sound) {e : Event}
    (hs : s.apply e = some s') (hcareful : s.Careful e) : s'.Own := by
  have hsettles := (settlesOwn_iff h hpending hs).2 hcareful
  have hkept := answered_apply hs
  intro id reply hmem
  cases e with
  | reply scope granted reply' =>
    obtain ⟨e, he, rfl⟩ := map_eq_some_iff.1 hs
    rw [hsettles e he] at hmem
    rcases List.mem_append.1 hmem with hmem | hmem
    · exact hkept (hown id reply hmem)
    · split at hmem
      · cases List.mem_singleton.1 hmem
        rw [(settle_rest e.key (e.echo granted) _).2.2]
        exact List.mem_append_right _ (.head _)
      · cases hmem
  | _ => exact hkept (hown id reply (hsettles id reply hmem))

/-- No promise is settled twice; one not settled waits for its timer. -/
structure SettledOnce (s : Requests) : Prop where
  promises : (s.settled.map (·.1) ++ s.waitingIds).Perm s.tracked
  nodup : s.tracked.Nodup
  timer : ∀ id ∈ s.waitingIds, ∃ s', s.apply (.timeout id) = some s' ∧ (id, none) ∈ s'.settled

theorem Sound.settledOnce (h : s.Sound) : s.SettledOnce where
  promises := h.promises
  nodup := h.tracked_sorted.imp Nat.ne_of_lt
  timer id hid := by
    refine ⟨s.done id none, if_pos hid, ?_⟩
    rw [h.done_eq hid]
    exact List.mem_append_right _ (.head _)

instance (s : Requests) : DecidablePred s.Careful
  | .reply _ _ _ => inferInstanceAs (Decidable (∀ _ ∈ _, _))
  | .request _ _ _ => .isTrue trivial
  | .reloadDms _ => .isTrue trivial
  | .rejected _ => .isTrue trivial
  | .timeout _ => .isTrue trivial
  | .lost _ _ => .isTrue trivial

end Requests

open Requests

/-- Every request is settled once, in every run. Where all replies are careful every reply that
    settled a request answers it, and the next one does exactly if it is careful. -/
theorem replies_settle_own {s : Requests} (hs : system.Reachable s) : s.SettledOnce ∧
    ((system.given Careful).Reachable s → s.Own ∧
      ∀ e s', system.step s e s' → (s.SettlesOwn e s' ↔ s.Careful e)) := by
  refine ⟨(sound_of_reachable hs).settledOnce, fun hs => ?_⟩
  have hsound := sound_of_reachable hs.of_given
  have hrun : s.Pending ∧ s.Own := by
    induction hs with
    | init h =>
      subst h
      exact ⟨nofun, nofun⟩
    | step e hreach hstep ih =>
      have hbefore := sound_of_reachable hreach.of_given
      obtain ⟨hpending, hown⟩ := ih hreach.of_given hbefore
      exact ⟨hpending.apply hbefore hstep.1 hstep.2, hown.apply hpending hbefore hstep.1 hstep.2⟩
  exact ⟨hrun.2, fun e s' hstep => settlesOwn_iff hsound hrun.1 hstep⟩

/-- A step whose reply, if it is one, is careful. -/
def applyCareful (s : Requests) (e : Event) : Option Requests :=
  if s.Careful e then s.apply e else none

/-- The state after events that can all happen. -/
def after (f : Requests → Event → Option Requests) (events : List Event)
    (h : (events.foldlM f {}).isSome) : Requests := (events.foldlM f {}).get h

theorem reachable_after {S : System Requests Event} {f : Requests → Event → Option Requests}
    (hinit : S.init {}) (hf : ∀ s e s', f s e = some s' → S.step s e s') (events : List Event)
    (h : (events.foldlM f {}).isSome) : S.Reachable (after f events h) :=
  .of_foldlM hf (.init hinit) h

def general : WaitKey := .channel "a" "general"

/-- An older page is asked for, and then the newest one. -/
def twoPages : List Event :=
  [.request general { beforeId := 500, limit := 50 } true,
    .request general { limit := 50 } true]

def repliesInOrder : List Event :=
  twoPages ++ [.reply (.community "a") true ⟨499, true⟩, .reply (.community "a") true ⟨900, false⟩]

/-- The state once both pages have come. -/
def bothPages : Requests := after applyCareful repliesInOrder (by decide)

theorem replies_settle_own_bothPages : bothPages.SettledOnce ∧ bothPages.Own ∧
    bothPages.settled = [(0, some ⟨499, true⟩), (1, some ⟨900, false⟩)] := by
  have hreach : (system.given Careful).Reachable bothPages := by
    refine reachable_after rfl (fun s e s' hs => ?_) repliesInOrder (by decide)
    rw [applyCareful] at hs
    split at hs
    · exact ⟨hs, ‹_›⟩
    · cases hs
  obtain ⟨honce, hown⟩ := replies_settle_own hreach.of_given
  exact ⟨honce, (hown hreach).1, by decide⟩

/-- The older page comes when its time is up and the newest is awaited. -/
def latePage : List Event :=
  twoPages ++ [.timeout 0, .reply (.community "a") true ⟨499, true⟩]

def lateReply : Requests := after Requests.apply latePage (by decide)

/-- The late reply is taken for the one with the newest page. -/
theorem late_reply_settles_another : system.Reachable lateReply ∧
    (1, some ⟨499, true⟩) ∈ lateReply.settled ∧ lateReply.answered = [(0, ⟨499, true⟩)] ∧
    ¬ lateReply.Own := by
  refine ⟨?_, by decide, by decide, fun hown => ?_⟩
  · exact reachable_after rfl (fun _ _ _ hs => hs) latePage (by decide)
  · exact absurd (hown 1 ⟨499, true⟩ (by decide)) (by decide)

end Decibell.HistoryRequests
