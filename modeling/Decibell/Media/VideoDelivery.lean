import Decibell.Lib.Run
import Decibell.Media.VideoReceiver

/-!
# What reaches the decoder

A run of the receiver is any sequence of packets, of any senders, and of maintenance at any times.
Of each sender there is what was delivered, with the gaps that were given up in between.

* `delivers_decodable`: the decoder can decode everything that is delivered, and what is kept for
  the senders is bounded.
-/

namespace Decibell.Media

open Lib VideoReceiver List Option

/-! ## A decoder -/

/-- A frame went to the decoder, or a gap was given up as the frame behind waited too long. -/
inductive Delivery
  | delivered (f : ReassembledFrame)
  | gaveUp (f : ReassembledFrame)

/-- A decoder whose last frame is `last`. -/
def decodeOne (last : Option UInt32) : Delivery → Option (Option UInt32)
  | .delivered f =>
    if f.isKeyframe || last.any fun id => f.frameId = id + 1 then some (some f.frameId) else none
  | .gaveUp _ => some none

/-- The decoder over a stream; none if a frame cannot be decoded. -/
def decode (last : Option UInt32) : List Delivery → Option (Option UInt32)
  | [] => some last
  | d :: l => (decodeOne last d).bind fun last => decode last l

theorem decode_append {last : Option UInt32} {l l' : List Delivery} :
    decode last (l ++ l') = (decode last l).bind fun last => decode last l' := by
  induction l generalizing last with
  | nil => rfl
  | cons d l ih =>
    rw [cons_append, decode, decode, bind_assoc]
    exact congrArg _ (funext fun _ => ih)

theorem decode_snoc {last : Option UInt32} {l : List Delivery} {d : Delivery} :
    decode last (l ++ [d]) = (decode last l).bind fun last => decodeOne last d := by
  rw [decode_append]
  exact congrArg _ (funext fun _ => bind_fun_some _)

theorem last_of_decode {l : List Delivery} {id : UInt32} (h : decode none l = some (some id)) :
    ∃ before g, l = before ++ [.delivered g] ∧ g.frameId = id := by
  induction l using List.reverseRecOn with
  | nil => cases h
  | append_singleton l d =>
    rw [decode_snoc, bind_eq_some_iff] at h
    obtain ⟨last, -, h⟩ := h
    cases d with
    | delivered f =>
      rw [decodeOne] at h
      split at h
      · cases h
        exact ⟨l, f, rfl, rfl⟩
      · cases h
    | gaveUp f => cases h

theorem follows_of_decode {before after : List Delivery} {f : ReassembledFrame}
    (h : (decode none (before ++ .delivered f :: after)).isSome) (hdelta : f.isKeyframe = false) :
    ∃ earlier g, before = earlier ++ [.delivered g] ∧ f.frameId = g.frameId + 1 := by
  obtain ⟨last', h⟩ := isSome_iff_exists.1 h
  rw [decode_append, bind_eq_some_iff] at h
  obtain ⟨last, hbefore, h⟩ := h
  rw [decode, bind_eq_some_iff] at h
  obtain ⟨_, h, -⟩ := h
  rw [decodeOne, hdelta, Bool.false_or] at h
  split at h
  · rename_i hnext
    cases last with
    | none => cases hnext
    | some id =>
      obtain ⟨earlier, g, hl, rfl⟩ := last_of_decode hbefore
      exact ⟨earlier, g, hl, of_decide_eq_true hnext⟩
  · cases h

/-! ## The receiver and its senders -/

/-- What the receiver is called with. -/
inductive VideoEvent
  | video (pkt : UdpVideoPacket) (now : Instant) (picks : Picks)
  | fec (pkt : UdpFecPacket) (now : Instant)
  | checkMissing (now : Instant)
  | cleanupStale (now : Instant)

/-- A receiver; each sender's stream so far, and the packets that came. -/
structure VideoRun where
  rx : VideoReceiver := {}
  history : SenderId → List Delivery := fun _ => []
  /-- The stream and the frame of each packet. -/
  arrived : SenderId → List (Nat × UInt32) := fun _ => []

namespace VideoRun

variable (st : VideoRun)

/-- What a packet of a sender brought. -/
def received (id : SenderId) (stream : Nat) (frameId : UInt32)
    (out : VideoReceiver × List ReassembledFrame) : VideoRun where
  rx := out.1
  history := Function.update st.history id (st.history id ++ out.2.map .delivered)
  arrived := Function.update st.arrived id ((stream, frameId) :: st.arrived id)

/-- One call. -/
def step : VideoEvent → VideoRun
  | .video pkt now picks =>
    if malformed pkt then st
    else st.received pkt.senderId pkt.stream pkt.frameId (st.rx.processPacket pkt now picks)
  | .fec pkt now =>
    st.received pkt.senderId pkt.stream pkt.frameId (st.rx.processFecPacket pkt now)
  | .checkMissing now =>
    { st with
      rx := (st.rx.checkMissing now).1
      history := fun id => st.history id ++
        ((st.rx.senders.get? id).bind (·.overdue now)).toList.map .gaveUp }
  | .cleanupStale now => { st with rx := st.rx.cleanupStale now }

end VideoRun

/-- The receiver with any packets and maintenance, at any times. -/
def videoSystem : System VideoRun VideoEvent where
  init st := st.rx.senders = .empty ∧ (∀ id, st.history id = []) ∧ ∀ id, st.arrived id = []
  step st ev st' := st' = st.step ev

/-- A run as one sender sees it. -/
structure SenderView where
  state : Option SenderState := none
  history : List Delivery := []
  arrived : List (Nat × UInt32) := []

/-- What happens to a sender. -/
inductive SenderMove
  | enter (id : SenderId) (now : Instant)
  | forget
  | video (pkt : UdpVideoPacket) (now : Instant) (pick : UInt32)
  | fec (pkt : UdpFecPacket) (now : Instant)
  | check (r : VideoReceiver) (now : Instant)
  | cleanup (r : VideoReceiver) (now : Instant)

namespace SenderView

variable (v : SenderView)

/-- A packet was taken in, and perhaps completed a frame. -/
def received (stream : Nat) (frameId : UInt32)
    (taken : SenderState × Option (ReassembledFrame × Bool)) (now : Instant) : SenderView :=
  let out := SenderState.deliver taken now
  { state := some out.1
    history := v.history ++ out.2.map .delivered
    arrived := (stream, frameId) :: v.arrived }

def move : SenderMove → SenderView
  | .enter id now =>
    { v with state := some (v.state.getD { id := senderIdStr id, lastActivity := now }) }
  | .forget => { v with state := none }
  | .video pkt now pick =>
    match v.state with
    | none => v
    | some s => v.received pkt.stream pkt.frameId (s.processPacket pkt now pick) now
  | .fec pkt now =>
    match v.state with
    | none => { v with arrived := (pkt.stream, pkt.frameId) :: v.arrived }
    | some s => v.received pkt.stream pkt.frameId (s.processFecPacket pkt now) now
  | .check r now =>
    { v with
      state := v.state.map fun s => (r.checkSender now s).1
      history := v.history ++ (v.state.bind (·.overdue now)).toList.map .gaveUp }
  | .cleanup r now => { v with state := v.state.map (r.cleanupSender now) }

end SenderView

/-- One sender: anything may happen to it. -/
def senderSystem : System SenderView SenderMove where
  init v := v = {}
  step v m v' := v' = v.move m

namespace VideoRun

variable (st : VideoRun)

/-- The run as a sender sees it. -/
def view (id : SenderId) : SenderView := ⟨st.rx.senders.get? id, st.history id, st.arrived id⟩

/-- What a call is for a sender. -/
def moves (id : SenderId) : VideoEvent → List SenderMove
  | .video pkt now picks =>
    if malformed pkt then []
    else
      (if st.rx.senders.victim maxSenders (·.lastActivity) picks.sender pkt.senderId = some id
        then [.forget] else []) ++
      if id = pkt.senderId then [.enter id now, .video pkt now picks.frame] else []
  | .fec pkt now => if id = pkt.senderId then [.fec pkt now] else []
  | .checkMissing now => [.check st.rx now]
  | .cleanupStale now =>
    .cleanup st.rx now ::
      if (st.rx.senders.get? id).any fun s => senderIdleTimeout ≤ durationSince now s.lastActivity
      then [.forget] else []

variable {st} {id : SenderId}

variable {stream : Nat} {frameId : UInt32} {out : VideoReceiver × List ReassembledFrame}

theorem view_received_self : (st.received id stream frameId out).view id =
    ⟨out.1.senders.get? id, st.history id ++ out.2.map .delivered,
      (stream, frameId) :: st.arrived id⟩ := by
  simp [view, received]

theorem view_received_of_ne {sender : SenderId} (h : id ≠ sender) :
    (st.received sender stream frameId out).view id =
      ⟨out.1.senders.get? id, st.history id, st.arrived id⟩ := by
  simp [view, received, h]

theorem view_entry (now : Instant) {r : VideoReceiver} {h : List Delivery}
    {a : List (Nat × UInt32)} {sender pick : SenderId} :
    (if r.senders.victim maxSenders (·.lastActivity) pick sender = some id then [SenderMove.forget]
      else []).foldl SenderView.move ⟨r.senders.get? id, h, a⟩ =
      ⟨(r.senderEntry sender now pick).1.get? id, h, a⟩ := by
  rw [VideoReceiver.senderEntry, Assoc.get?_removeAny]
  split
  · rfl
  · rfl

theorem view_step (e : VideoEvent) :
    (st.step e).view id = (st.moves id e).foldl SenderView.move (st.view id) := by
  cases e with
  | video pkt now picks =>
    rw [step, moves]
    by_cases hbad : malformed pkt = true
    · rw [if_pos hbad, if_pos hbad]
      rfl
    · rw [if_neg hbad, if_neg hbad, foldl_append, VideoReceiver.processPacket,
        if_neg hbad, show st.view id = ⟨st.rx.senders.get? id, st.history id, st.arrived id⟩ from rfl,
        view_entry now]
      by_cases hid : id = pkt.senderId
      · rw [hid, view_received_self, if_pos rfl, Assoc.get?_insert, if_pos rfl]
        rfl
      · rw [view_received_of_ne hid, if_neg hid, Assoc.get?_insert, if_neg hid]
        rfl
  | fec pkt now =>
    rw [step, moves, VideoReceiver.processFecPacket]
    by_cases hid : id = pkt.senderId
    · rw [hid, view_received_self, if_pos rfl, foldl_cons, foldl_nil, SenderView.move]
      cases hsender : st.rx.senders.get? pkt.senderId with
      | none => simp [view, hsender]
      | some s => simp [view, hsender, SenderView.received, Assoc.get?_insert]
    · rw [view_received_of_ne hid, if_neg hid, foldl_nil, view]
      cases hsender : st.rx.senders.get? pkt.senderId with
      | none => rfl
      | some s => rw [Assoc.get?_insert, if_neg hid]
  | checkMissing now =>
    rw [step, moves, view, VideoReceiver.checkMissing, Assoc.get?_mapValues]
    rfl
  | cleanupStale now =>
    rw [step, moves, view, VideoReceiver.cleanupStale, foldl_cons, Assoc.get?_retain,
      Assoc.get?_mapValues]
    rw [SenderView.move, view]
    cases hsender : st.rx.senders.get? id with
    | none => rfl
    | some s =>
      by_cases hidle : senderIdleTimeout ≤ durationSince now s.lastActivity
      · simp [hidle, SenderView.move, VideoReceiver.cleanupSender, Option.filter]
      · simp [hidle, VideoReceiver.cleanupSender, Option.filter]

end VideoRun

/-! ## Runs -/

/-- Each of the moves meets a condition. -/
def SenderView.AllMoves (C : SenderView → SenderMove → Prop) :
    SenderView → List SenderMove → Prop
  | _, [] => True
  | v, m :: ms => C v m ∧ AllMoves C (v.move m) ms

/-- What a call is for each sender meets a condition. -/
def VideoRun.Meets (C : SenderView → SenderMove → Prop) (st : VideoRun) (e : VideoEvent) : Prop :=
  ∀ id, (st.view id).AllMoves C (st.moves id e)

variable {C : SenderView → SenderMove → Prop} {st : VideoRun}

theorem runs_of_allMoves {v : SenderView} {ms : List SenderMove} (h : v.AllMoves C ms) :
    (senderSystem.given C).Runs v ms (ms.foldl SenderView.move v) := by
  induction ms generalizing v with
  | nil => exact .nil v
  | cons m ms ih => exact .cons ⟨rfl, h.1⟩ (ih h.2)

theorem view_reachable (h : (videoSystem.given (VideoRun.Meets C)).Reachable st) (id : SenderId) :
    (senderSystem.given C).Reachable (st.view id) := by
  refine h.project (·.view id) ?_ ?_
  · rintro st ⟨hsenders, hhistory, harrived⟩
    rw [VideoRun.view, hsenders, hhistory, harrived]
    exact rfl
  · rintro st e st' ⟨rfl, hmeets⟩
    exact ⟨st.moves id e, VideoRun.view_step e ▸ runs_of_allMoves (hmeets id)⟩

theorem allMoves_of_forall (hC : ∀ v m, C v m) (v : SenderView) (ms : List SenderMove) :
    v.AllMoves C ms := by
  induction ms generalizing v with
  | nil => exact trivial
  | cons m ms ih => exact ⟨hC v m, ih _⟩

theorem view_invariant {I : SenderView → Prop} (hinit : I {})
    (hmove : ∀ v m, I v → I (v.move m)) (h : videoSystem.Reachable st) (id : SenderId) :
    I (st.view id) := by
  have hany := h.given_of_forall (C := VideoRun.Meets fun _ _ => True)
    fun st e id => allMoves_of_forall (fun _ _ => trivial) _ _
  refine System.reachable_invariant ?_ ?_ (view_reachable hany id)
  · rintro v rfl
    exact hinit
  · rintro v m _ hv ⟨rfl, -⟩
    exact hmove v m hv

/-! ## The gate and the decoder -/

/-- A sender whose decoder can decode all delivered, and the frame at the cursor. -/
structure SenderState.Follows (s : SenderState) (h : List Delivery) : Prop where
  decodes : (decode none h).isSome
  cursor : ∀ n, s.nextDelivery = some n → ∃ id, decode none h = some (some id) ∧ n = id + 1
  held : ∀ k e, s.pendingDelivery.get? k = some e → e.2.frameId = k
  frames : s.framesInProgress.size ≤ maxFramesInProgress
  pending : s.pendingDelivery.size ≤ maxPendingDelivery

namespace SenderState

variable {s t : SenderState} {h : List Delivery} {f : ReassembledFrame} {now : Instant}

theorem decode_delivered {last : Option UInt32} (hlast : decode none h = some last)
    (hok : f.isKeyframe || last.any fun id => f.frameId = id + 1) :
    decode none (h ++ [.delivered f]) = some (some f.frameId) := by
  rw [decode_snoc, hlast, bind_some, decodeOne, if_pos hok]

theorem Follows.delivered (hs : s.Follows h) {last : Option UInt32}
    (hlast : decode none h = some last)
    (hok : f.isKeyframe || last.any fun id => f.frameId = id + 1)
    (hnext : t.nextDelivery = some (f.frameId + 1)) (hframes : t.framesInProgress = s.framesInProgress)
    (hheld : ∀ k e, t.pendingDelivery.get? k = some e → s.pendingDelivery.get? k = some e)
    (hsize : t.pendingDelivery.size ≤ s.pendingDelivery.size) :
    t.Follows (h ++ [.delivered f]) := by
  have hdecode := decode_delivered hlast hok
  constructor
  · rw [hdecode]
    rfl
  · intro n hn
    cases hn.symm.trans hnext
    exact ⟨f.frameId, hdecode, rfl⟩
  · exact fun k e he => hs.held k e (hheld k e he)
  · exact hframes ▸ hs.frames
  · exact hsize.trans hs.pending

theorem Follows.pass (hs : s.Follows (h ++ [.delivered f])) :
    (s.pass f).1.Follows (h ++ (s.pass f).2.map .delivered) := by
  have hflush := s.flushPending_rule (fun s out => s.Follows (h ++ out.map .delivered))
    (fun s out n held hs hnext hheld => ?_) [f] hs
  · exact hflush
  · obtain ⟨id, hid, rfl⟩ := hs.cursor n hnext
    rw [map_append, ← append_assoc]
    refine hs.delivered hid ?_ ?_ rfl (fun k e he => ?_) Assoc.size_remove_le
    · rw [any_some, hs.held _ held hheld, decide_eq_true rfl, Bool.or_true]
    · rw [hs.held _ held hheld]
    · rw [Assoc.get?_remove] at he
      split at he
      · cases he
      · exact he

theorem Follows.acceptCompleted (hs : s.Follows h) (afterSilence : Bool) :
    (s.acceptCompleted f now afterSilence).1.Follows
      (h ++ (s.acceptCompleted f now afterSilence).2.map .delivered) := by
  obtain ⟨last, hlast⟩ := isSome_iff_exists.1 hs.decodes
  have hgate := s.atGate f now afterSilence
  generalize s.acceptCompleted f now afterSilence = out at hgate
  cases hgate with
  | dropped =>
    rw [map_nil, append_nil]
    exact hs
  | held n hdelta hnext hne hbefore hroom =>
    rw [map_nil, append_nil]
    refine ⟨hs.decodes, hs.cursor, fun k e he => ?_, hs.frames, ?_⟩
    · rcases Assoc.get?_insert_eq_some he with ⟨rfl, rfl⟩ | ⟨-, he⟩
      · rfl
      · exact hs.held k e he
    · exact (s.pendingDelivery.size_insert_le _ _).trans hroom
  | keyframe hkey hlate =>
    refine Follows.pass (hs.delivered hlast ?_ ?_ ?_ (fun k e he => ?_) ?_)
    · rw [hkey, Bool.true_or]
    · rfl
    · rfl
    · rw [Assoc.get?_retain] at he
      exact (filter_eq_some_iff.1 he).1
    · exact Assoc.size_retain_le
  | next hdelta hnext =>
    obtain ⟨id, hid, hn⟩ := hs.cursor _ hnext
    refine Follows.pass (hs.delivered hid ?_ ?_ ?_ (fun k e he => ?_) ?_)
    · rw [any_some, decide_eq_true hn, Bool.or_true]
    · rfl
    · rfl
    · exact he
    · exact le_rfl

theorem Follows.takes (hs : s.Follows h) {frameId : UInt32} {stream : Nat}
    {taken : SenderState × Option (ReassembledFrame × Bool)}
    (ht : s.Takes frameId stream taken) : taken.1.Follows h := by
  refine ⟨hs.decodes, ?_, ?_, ht.frames, ?_⟩
  · rw [ht.next]
    exact hs.cursor
  · rw [ht.pending]
    exact hs.held
  · rw [ht.pending]
    exact hs.pending

theorem Follows.deliver {taken : SenderState × Option (ReassembledFrame × Bool)}
    (hs : taken.1.Follows h) : (SenderState.deliver taken now).1.Follows
      (h ++ (SenderState.deliver taken now).2.map .delivered) := by
  rw [SenderState.deliver]
  split
  · rw [map_nil, append_nil]
    exact hs
  · exact hs.acceptCompleted _

end SenderState

/-- The state of a sender, if it has one, with its decoder. -/
structure SenderView.Decodes (v : SenderView) : Prop where
  decodes : (decode none v.history).isSome
  follows : ∀ s, v.state = some s → s.Follows v.history

theorem SenderState.Follows.decodesView {s : SenderState} {h : List Delivery} (hs : s.Follows h)
    {a : List (Nat × UInt32)} : SenderView.Decodes ⟨some s, h, a⟩ :=
  ⟨hs.decodes, fun _ ht => by cases ht; exact hs⟩

/-- Giving a gap up, the receiver awaits a keyframe, as the decoder does. -/
theorem SenderState.Follows.checkSender {s : SenderState} {h : List Delivery} (hs : s.Follows h)
    (r : VideoReceiver) (now : Instant) :
    (r.checkSender now s).1.Follows (h ++ (s.overdue now).toList.map .gaveUp) := by
  have hexpire : (s.expirePending now).Follows (h ++ (s.overdue now).toList.map .gaveUp) := by
    rw [SenderState.expirePending]
    cases hover : s.overdue now with
    | none =>
      rw [toList_none, map_nil, append_nil]
      exact hs
    | some f =>
      obtain ⟨last, hlast⟩ := isSome_iff_exists.1 hs.decodes
      refine ⟨?_, fun n hn => (by cases hn), fun k e he => (by cases he), hs.frames,
        Nat.zero_le _⟩
      rw [toList_some, map_singleton, decode_snoc, hlast]
      rfl
  obtain ⟨_, _, _, hcheck⟩ := r.checkSender_eq now s
  rw [hcheck]
  exact ⟨hexpire.decodes, hexpire.cursor, hexpire.held, hexpire.frames, hexpire.pending⟩

/-- Whatever happens, a sender's decoder can decode what is delivered. -/
theorem SenderView.Decodes.move {v : SenderView} (hv : v.Decodes) (m : SenderMove) :
    (v.move m).Decodes := by
  obtain ⟨state, h, a⟩ := v
  cases m with
  | enter id now =>
    cases state with
    | none =>
      refine ⟨hv.decodes, fun s hs => ?_⟩
      cases hs
      exact ⟨hv.decodes, fun n hn => (by cases hn), fun k e he => (by cases he), Nat.zero_le _,
        Nat.zero_le _⟩
    | some s => exact hv
  | forget => exact ⟨hv.decodes, fun s hs => by cases hs⟩
  | video pkt now pick =>
    cases state with
    | none => exact hv
    | some s =>
      have hs := hv.follows s rfl
      exact (hs.takes (SenderState.takes_processPacket now hs.frames pkt pick)).deliver.decodesView
  | fec pkt now =>
    cases state with
    | none => exact ⟨hv.decodes, hv.follows⟩
    | some s =>
      have hs := hv.follows s rfl
      exact (hs.takes (SenderState.takes_processFecPacket now hs.frames pkt)).deliver.decodesView
  | check r now =>
    cases state with
    | none =>
      rw [SenderView.move, bind_none, toList_none, map_nil, append_nil]
      exact hv
    | some s => exact ((hv.follows s rfl).checkSender r now).decodesView
  | cleanup r now =>
    cases state with
    | none => exact hv
    | some s =>
      have hs := hv.follows s rfl
      have hcleaned : (r.cleanupSender now s).Follows h :=
        ⟨hs.decodes, hs.cursor, hs.held, Assoc.size_retain_le.trans hs.frames, hs.pending⟩
      exact hcleaned.decodesView

theorem size_senders_le (h : videoSystem.Reachable st) : st.rx.senders.size ≤ maxSenders := by
  refine System.reachable_invariant (I := fun st => st.rx.senders.size ≤ maxSenders) ?_ ?_ h
  · rintro st ⟨hsenders, -⟩
    rw [hsenders]
    exact Nat.zero_le _
  · rintro st e st' hst rfl
    cases e with
    | video pkt now picks =>
      rw [VideoRun.step, VideoReceiver.processPacket]
      split
      · exact hst
      · exact Assoc.size_insert_victim (by decide) hst
    | fec pkt now =>
      rw [VideoRun.step, VideoReceiver.processFecPacket]
      cases hsender : st.rx.senders.get? pkt.senderId with
      | none => exact hst
      | some s =>
        exact (Assoc.size_insert_of_mem (isSome_of_eq_some hsender)).le.trans hst
    | checkMissing now => exact Assoc.size_mapValues.le.trans hst
    | cleanupStale now => exact Assoc.size_retain_le.trans (Assoc.size_mapValues.le.trans hst)

/-- Only decodable video is delivered. A sender's delta goes right after its predecessor, and only a
    keyframe first or after a gap given up; senders, frames in progress and held frames stay
    bounded. -/
theorem delivers_decodable (h : videoSystem.Reachable st) :
    (∀ id before f after, st.history id = before ++ .delivered f :: after →
      (f.isKeyframe = false →
        ∃ earlier g, before = earlier ++ [.delivered g] ∧ f.frameId = g.frameId + 1) ∧
      (before = [] ∨ (∃ earlier g, before = earlier ++ [.gaveUp g]) → f.isKeyframe = true)) ∧
    st.rx.senders.size ≤ 8 ∧
    ∀ id s, st.rx.senders.get? id = some s →
      s.framesInProgress.size ≤ 64 ∧ s.pendingDelivery.size ≤ 32 := by
  have hview := view_invariant (I := SenderView.Decodes)
    ⟨rfl, fun s hs => by cases hs⟩ (fun v m hv => hv.move m) h
  refine ⟨fun id before f after hhistory => ?_, size_senders_le h, fun id s hs => ?_⟩
  · have hdecodes : (decode none (st.history id)).isSome := (hview id).decodes
    rw [hhistory] at hdecodes
    have hfollows := follows_of_decode hdecodes
    refine ⟨hfollows, fun hbefore => ?_⟩
    by_contra hdelta
    obtain ⟨earlier, g, rfl, -⟩ := hfollows (Bool.eq_false_iff.2 hdelta)
    rcases hbefore with hnil | ⟨earlier', g', hgap⟩
    · exact List.append_ne_nil_of_right_ne_nil _ (List.cons_ne_nil _ _) hnil
    · cases (List.append_inj' hgap rfl).2
  · exact ⟨((hview id).follows s hs).frames, ((hview id).follows s hs).pending⟩

/-- The calls of a run, one after the other. -/
def runVideo (events : List VideoEvent) : VideoRun := events.foldl VideoRun.step {}

theorem runVideo_reachable (events : List VideoEvent) :
    videoSystem.Reachable (runVideo events) := by
  have hfold : ∀ st, videoSystem.Reachable st →
      videoSystem.Reachable (events.foldl VideoRun.step st) := by
    induction events with
    | nil => exact fun st hst => hst
    | cons e events ih => exact fun st hst => ih _ (.step e hst rfl)
  exact hfold {} (.init ⟨rfl, fun _ => rfl, fun _ => rfl⟩)

def onePacket (frameId : UInt32) (isKeyframe : Bool) (stream : Nat) : UdpVideoPacket where
  senderId := [49]
  frameId
  packetIndex := 0
  totalPackets := 1
  isKeyframe
  payload := [0]
  stream

/-- A keyframe, a frame that has to wait, and the frame before it. -/
def reordered : List VideoEvent :=
  [.video (onePacket 0 true 0) 0 {}, .video (onePacket 2 false 0) 0 {},
    .video (onePacket 1 false 0) 0 {}]

theorem delivers_decodable_reordered :
    (∀ id before f after, (runVideo reordered).history id = before ++ .delivered f :: after →
      (f.isKeyframe = false →
        ∃ earlier g, before = earlier ++ [.delivered g] ∧ f.frameId = g.frameId + 1) ∧
      (before = [] ∨ (∃ earlier g, before = earlier ++ [.gaveUp g]) → f.isKeyframe = true)) ∧
    (runVideo reordered).rx.senders.size ≤ 8 ∧
    ∀ id s, (runVideo reordered).rx.senders.get? id = some s →
      s.framesInProgress.size ≤ 64 ∧ s.pendingDelivery.size ≤ 32 :=
  delivers_decodable (runVideo_reachable reordered)

end Decibell.Media
