import Decibell.Media.VideoDelivery

/-!
# Late frames and restarted streams

A sender numbers the frames of its stream from 0, and from 0 again when it starts its stream again.
The receiver tells a new stream by its keyframe: by its id 0, by a silence before it, or by how far
it is behind the cursor.
-/

namespace Decibell.Media

open Lib List

/-- The frame a delivery is about. -/
def Delivery.frame : Delivery → ReassembledFrame
  | .delivered f => f
  | .gaveUp f => f

/-- What a delivered frame rules out: frames of its stream not after it and, for a keyframe, all of
    an older stream, which cause no gap to be given up either. -/
def Fresh : Delivery → Delivery → Prop
  | .delivered f, d =>
    (match d with
      | .delivered g => ∀ e ∈ f.streams, e ∈ g.streams → f.frameId < g.frameId
      | .gaveUp _ => True) ∧
    (f.isKeyframe = true → ∀ e ∈ f.streams, ∀ e' ∈ d.frame.streams, e ≤ e')
  | .gaveUp _, _ => True

instance : DecidableRel Fresh
  | .delivered _, .delivered _ => inferInstanceAs (Decidable (_ ∧ _))
  | .delivered _, .gaveUp _ => inferInstanceAs (Decidable (True ∧ _))
  | .gaveUp _, _ => inferInstanceAs (Decidable True)

/-! ## The condition -/

/-- A packet comes less than 512 frames late in its stream. -/
def VideoRun.inWindow (st : VideoRun) : VideoEvent → Bool
  | .video pkt _ _ => (st.arrived pkt.senderId).all fun a =>
      a.1 ≠ pkt.stream || a.2.toNat < pkt.frameId.toNat + 512
  | .fec pkt _ => (st.arrived pkt.senderId).all fun a =>
      a.1 ≠ pkt.stream || a.2.toNat < pkt.frameId.toNat + 512
  | _ => true

/-- The same for one sender. -/
def SenderView.InWindow (v : SenderView) : SenderMove → Prop
  | .video pkt _ _ => ∀ id, (pkt.stream, id) ∈ v.arrived → id.toNat < pkt.frameId.toNat + 512
  | .fec pkt _ => ∀ id, (pkt.stream, id) ∈ v.arrived → id.toNat < pkt.frameId.toNat + 512
  | _ => True

/-- The first is of an older stream, or a smaller id in the same. -/
def ReassembledFrame.Precedes (f g : ReassembledFrame) : Prop :=
  f.stream < g.stream ∨ f.stream = g.stream ∧ f.frameId < g.frameId

/-- All its packets are of one stream. -/
def ReassembledFrame.Whole (f : ReassembledFrame) : Prop := ∀ e ∈ f.streams, e = f.stream

/-- A complete frame that does not get in the way of the streams. -/
structure SenderState.Careful (s : SenderState) (h : List Delivery) (f : ReassembledFrame)
    (afterSilence : Bool) : Prop where
  whole : f.Whole
  /-- A keyframe not after all delivered looks like no restart: a little behind a running cursor,
      not keyframe 0, not after a silence. -/
  passed : f.isKeyframe = true → ∀ g, .delivered g ∈ h → ¬ g.Precedes f →
    ∃ next, s.nextDelivery = some next ∧ 0 < next - f.frameId ∧
      next - f.frameId < restartThreshold ∧ f.frameId ≠ 0 ∧ afterSilence = false
  /-- A delivered keyframe leaves nothing of another stream held. -/
  superseded : f.isKeyframe = true → s.late f.frameId afterSilence = false →
    ∀ id held, s.pendingDelivery.get? id = some held → held.2.stream ≠ f.stream →
      seqBefore f.frameId id = false
  /-- A delta of another stream than the last is behind the cursor. -/
  stray : f.isKeyframe = false → ∀ next g, s.nextDelivery = some next →
    h.getLast? = some (.delivered g) → g.stream ≠ f.stream → seqBefore f.frameId next = true

/-- The frame that is completed, if one is, is careful. -/
def SenderView.Careful (v : SenderView) (m : SenderMove) : Prop :=
  match m, v.state with
  | .video pkt now pick, some s =>
    ∀ c, (s.processPacket pkt now pick).2 = some c →
      (s.processPacket pkt now pick).1.Careful v.history c.1 c.2
  | .fec pkt now, some s =>
    ∀ c, (s.processFecPacket pkt now).2 = some c →
      (s.processFecPacket pkt now).1.Careful v.history c.1 c.2
  | _, _ => True

/-! ## Ids -/

theorem lt_add_one {a : UInt32} (h : a + 1 ≠ 0) : a < a + 1 := by
  have hsize := a.toNat_lt
  have hne : (a + 1).toNat ≠ 0 := fun h' => h (UInt32.toNat_inj.1 h')
  rw [UInt32.lt_iff_toNat_lt]
  rw [UInt32.toNat_add] at hne ⊢
  simp only [UInt32.reduceToNat] at hne ⊢
  omega

theorem ne_zero_of_window {c f : UInt32} (hwindow : c.toNat < f.toNat + 512) (hne : f ≠ c + 1)
    (hbefore : seqBefore f (c + 1) = false) : f ≠ 0 := by
  rintro rfl
  rw [seqBefore, decide_eq_true hne, Bool.true_and, decide_eq_false_iff_not, UInt32.not_lt,
    UInt32.le_iff_toNat_le, UInt32.toNat_sub, UInt32.toNat_add] at hbefore
  simp only [UInt32.reduceToNat] at hbefore hwindow
  omega

theorem lt_of_window {c : UInt32} (hwindow : c.toNat < (c + 1).toNat + 512) : c < c + 1 := by
  refine lt_add_one fun h => ?_
  have hsize := c.toNat_lt
  have hzero : (c + 1).toNat = 0 := congrArg UInt32.toNat h
  rw [UInt32.toNat_add] at hzero hwindow
  simp only [UInt32.reduceToNat] at hzero hwindow
  omega

theorem ReassembledFrame.Precedes.trans {f g k : ReassembledFrame} (h : f.Precedes g)
    (h' : g.Precedes k) : f.Precedes k := by
  rcases h with h | ⟨h, hid⟩
  · rcases h' with h' | ⟨h', -⟩
    · exact .inl (h.trans h')
    · exact .inl (h' ▸ h)
  · rcases h' with h' | ⟨h', hid'⟩
    · exact .inl (h ▸ h')
    · exact .inr ⟨h.trans h', UInt32.lt_trans hid hid'⟩

theorem ReassembledFrame.Precedes.le {f g : ReassembledFrame} (h : f.Precedes g) :
    f.stream ≤ g.stream := by
  rcases h with h | ⟨h, -⟩
  · exact h.le
  · exact h.le

/-! ## What is kept -/

/-- What a delivered frame rules out, if all frames are whole. -/
def Before : Delivery → Delivery → Prop
  | .delivered f, .delivered g => f.Precedes g
  | .delivered f, .gaveUp g => f.stream ≤ g.stream
  | .gaveUp _, _ => True

/-- What was delivered of a sender, in the order of streams and ids. -/
structure Tidy (h : List Delivery) (a : List (Nat × UInt32)) : Prop where
  sorted : h.Pairwise Before
  whole : ∀ d ∈ h, d.frame.Whole
  arrived : ∀ f, .delivered f ∈ h → (f.stream, f.frameId) ∈ a

variable {h : List Delivery} {a : List (Nat × UInt32)} {f g : ReassembledFrame}

theorem Tidy.fresh (ht : Tidy h a) : h.Pairwise Fresh := by
  refine ht.sorted.imp_of_mem fun {d d'} hd hd' hbefore => ?_
  cases d with
  | gaveUp f => exact trivial
  | delivered f =>
    have hf : ∀ e ∈ f.streams, e = f.stream := ht.whole _ hd
    have hd' : ∀ e ∈ d'.frame.streams, e = d'.frame.stream := ht.whole _ hd'
    cases d' with
    | delivered g =>
      refine ⟨fun e he he' => ?_, fun _ e he e' he' => ?_⟩
      · rcases hbefore with hless | ⟨-, hid⟩
        · exact absurd ((hf e he).symm.trans (hd' e he')) (Nat.ne_of_lt hless)
        · exact hid
      · rw [hf e he, hd' e' he']
        exact ReassembledFrame.Precedes.le hbefore
    | gaveUp g =>
      refine ⟨trivial, fun _ e he e' he' => ?_⟩
      rw [hf e he, hd' e' he']
      exact hbefore

theorem Tidy.mono (ht : Tidy h a) {a' : List (Nat × UInt32)} (ha : a ⊆ a') : Tidy h a' :=
  ⟨ht.sorted, ht.whole, fun f hf => ha (ht.arrived f hf)⟩

theorem Tidy.eq_or_precedes (ht : Tidy h a) (hlast : h.getLast? = some (.delivered g))
    (hf : .delivered f ∈ h) : f = g ∨ f.Precedes g := by
  obtain ⟨earlier, rfl⟩ := getLast?_eq_some_iff.1 hlast
  rcases mem_append.1 hf with hf | hf
  · exact .inr ((pairwise_append.1 ht.sorted).2.2 _ hf _ (.head _))
  · cases mem_singleton.1 hf
    exact .inl rfl

theorem Tidy.precedes_of_last (ht : Tidy h a) (hlast : h.getLast? = some (.delivered g))
    (hprecedes : g.Precedes f) : ∀ k, .delivered k ∈ h → k.Precedes f := by
  intro k hk
  rcases ht.eq_or_precedes hlast hk with rfl | hkg
  · exact hprecedes
  · exact hkg.trans hprecedes

theorem Tidy.delivered (ht : Tidy h a) (hprecedes : ∀ g, .delivered g ∈ h → g.Precedes f)
    (hwhole : f.Whole) (harrived : (f.stream, f.frameId) ∈ a) : Tidy (h ++ [.delivered f]) a := by
  refine ⟨pairwise_append.2 ⟨ht.sorted, pairwise_singleton _ _, ?_⟩, ?_, ?_⟩
  · intro d hd d' hd'
    cases mem_singleton.1 hd'
    cases d with
    | delivered g => exact hprecedes g hd
    | gaveUp g => exact trivial
  · intro d hd
    rcases mem_append.1 hd with hd | hd
    · exact ht.whole d hd
    · cases mem_singleton.1 hd
      exact hwhole
  · intro g hg
    rcases mem_append.1 hg with hg | hg
    · exact ht.arrived g hg
    · cases mem_singleton.1 hg
      exact harrived

theorem Tidy.gaveUp (ht : Tidy h a) (hle : ∀ g, .delivered g ∈ h → g.stream ≤ f.stream)
    (hwhole : f.Whole) : Tidy (h ++ [.gaveUp f]) a := by
  refine ⟨pairwise_append.2 ⟨ht.sorted, pairwise_singleton _ _, ?_⟩, ?_, ?_⟩
  · intro d hd d' hd'
    cases mem_singleton.1 hd'
    cases d with
    | delivered g => exact hle g hd
    | gaveUp g => exact trivial
  · intro d hd
    rcases mem_append.1 hd with hd | hd
    · exact ht.whole d hd
    · cases mem_singleton.1 hd
      exact hwhole
  · intro g hg
    rcases mem_append.1 hg with hg | hg
    · exact ht.arrived g hg
    · cases mem_singleton.1 hg

/-- A held frame of the stream that is being delivered. -/
structure HeldFor (stream : Nat) (a : List (Nat × UInt32)) (id : UInt32) (f : ReassembledFrame) :
    Prop where
  id_eq : f.frameId = id
  /-- So that the cursor does not come to it by running over. -/
  ne_zero : id ≠ 0
  stream_eq : f.stream = stream
  whole : f.Whole
  arrived : (stream, id) ∈ a

namespace SenderState

/-- Everything held of a sender is of the stream being delivered. -/
structure Clean (s : SenderState) (h : List Delivery) (a : List (Nat × UInt32)) : Prop where
  tidy : Tidy h a
  idle : s.nextDelivery = none → ∀ id, s.pendingDelivery.get? id = none
  running : ∀ next, s.nextDelivery = some next → ∃ g, h.getLast? = some (.delivered g) ∧
    next = g.frameId + 1 ∧
    ∀ id held, s.pendingDelivery.get? id = some held → HeldFor g.stream a id held.2

variable {s t : SenderState}

theorem Clean.mono (hs : s.Clean h a) {a' : List (Nat × UInt32)} (ha : a ⊆ a') : s.Clean h a' := by
  refine ⟨hs.tidy.mono ha, hs.idle, fun next hnext => ?_⟩
  obtain ⟨g, hlast, hg, hheld⟩ := hs.running next hnext
  refine ⟨g, hlast, hg, fun id held hid => ?_⟩
  obtain ⟨hfid, hne, hstream, hwhole, harrived⟩ := hheld id held hid
  exact ⟨hfid, hne, hstream, hwhole, ha harrived⟩

theorem Clean.of_gate (hs : s.Clean h a) (hpending : t.pendingDelivery = s.pendingDelivery)
    (hnext : t.nextDelivery = s.nextDelivery) : t.Clean h a := by
  refine ⟨hs.tidy, ?_, ?_⟩
  · rw [hpending, hnext]
    exact hs.idle
  · rw [hpending, hnext]
    exact hs.running

theorem Clean.delivered (ht : Tidy h a) (hprecedes : ∀ g, .delivered g ∈ h → g.Precedes f)
    (hwhole : f.Whole) (harrived : (f.stream, f.frameId) ∈ a)
    (hnext : t.nextDelivery = some (f.frameId + 1))
    (hheld : ∀ id held, t.pendingDelivery.get? id = some held → HeldFor f.stream a id held.2) :
    t.Clean (h ++ [.delivered f]) a := by
  refine ⟨ht.delivered hprecedes hwhole harrived, fun hnone => ?_, fun next hn => ?_⟩
  · cases hnone.symm.trans hnext
  · cases hn.symm.trans hnext
    exact ⟨f, getLast?_concat, rfl, hheld⟩

theorem Clean.pass (hs : s.Clean (h ++ [.delivered f]) a) :
    (s.pass f).1.Clean (h ++ (s.pass f).2.map .delivered) a := by
  have hflush := s.flushPending_rule (fun s out => s.Clean (h ++ out.map .delivered) a)
    (fun s out n held hs hnext hheld => ?_) [f] hs
  · exact hflush
  · obtain ⟨g, hlast, rfl, hall⟩ := hs.running n hnext
    obtain ⟨hid, hne, hstream, hwhole, harrived⟩ := hall _ held hheld
    have hprecedes : g.Precedes held.2 := .inr ⟨hstream.symm, hid ▸ lt_add_one hne⟩
    rw [map_append, ← append_assoc]
    refine Clean.delivered hs.tidy (hs.tidy.precedes_of_last hlast hprecedes) hwhole ?_ ?_
      fun id held' hheld' => ?_
    · rw [hstream, hid]
      exact harrived
    · rw [hid]
    · rw [Assoc.get?_remove] at hheld'
      split at hheld'
      · cases hheld'
      · exact hstream ▸ hall id held' hheld'

theorem Careful.precedes {afterSilence : Bool} (hc : s.Careful h f afterSilence)
    (hkey : f.isKeyframe = true) (hlate : s.late f.frameId afterSilence = false) :
    ∀ g, .delivered g ∈ h → g.Precedes f := by
  intro g hg
  by_contra hnot
  obtain ⟨next, hnext, hbehind, hless, hne, rfl⟩ := hc.passed hkey g hg hnot
  rw [late, hnext] at hlate
  simp [hbehind, hless, hne] at hlate

theorem Clean.acceptCompleted (hs : s.Clean h a) {now : Instant} {afterSilence : Bool}
    (harrived : (f.stream, f.frameId) ∈ a)
    (hwindow : ∀ id, (f.stream, id) ∈ a → id.toNat < f.frameId.toNat + 512)
    (hc : s.Careful h f afterSilence) :
    (s.acceptCompleted f now afterSilence).1.Clean
      (h ++ (s.acceptCompleted f now afterSilence).2.map .delivered) a := by
  have hgate := s.atGate f now afterSilence
  generalize s.acceptCompleted f now afterSilence = out at hgate
  cases hgate with
  | dropped =>
    rw [map_nil, append_nil]
    exact hs
  | keyframe hkey hlate =>
    refine Clean.pass (Clean.delivered hs.tidy (hc.precedes hkey hlate) hc.whole harrived rfl
      fun id held hheld => ?_)
    -- What the reset leaves is of the keyframe's stream.
    rw [Assoc.get?_retain, Option.filter_eq_some_iff] at hheld
    obtain ⟨hheld, hafter⟩ := hheld
    cases hnext : s.nextDelivery with
    | none => cases (hs.idle hnext id).symm.trans hheld
    | some next =>
      obtain ⟨g, -, -, hall⟩ := hs.running next hnext
      have hheldFor := hall id held hheld
      have hstream : held.2.stream = f.stream := by
        by_contra hother
        cases (hc.superseded hkey hlate id held hheld hother).symm.trans hafter
      rw [← hstream, hheldFor.stream_eq]
      exact hheldFor
  | next hdelta hnext =>
    obtain ⟨g, hlast, hcursor, hall⟩ := hs.running _ hnext
    have hstream : g.stream = f.stream := by
      by_contra hother
      have hbefore := hc.stray hdelta _ g hnext hlast hother
      rw [seqBefore, decide_eq_false (not_not.2 rfl)] at hbefore
      cases hbefore
    have hg : (f.stream, g.frameId) ∈ a :=
      hstream ▸ hs.tidy.arrived g (mem_of_getLast? hlast)
    have hprecedes : g.Precedes f :=
      .inr ⟨hstream, hcursor ▸ lt_of_window (hcursor ▸ hwindow _ hg)⟩
    exact Clean.pass (Clean.delivered hs.tidy (hs.tidy.precedes_of_last hlast hprecedes) hc.whole
      harrived rfl fun id held hheld => hstream ▸ hall id held hheld)
  | held n hdelta hnext hne hbefore hroom =>
    rw [map_nil, append_nil]
    obtain ⟨g, hlast, rfl, hall⟩ := hs.running n hnext
    have hstream : g.stream = f.stream := by
      by_contra hother
      cases (hc.stray hdelta _ g hnext hlast hother).symm.trans hbefore
    have hg : (f.stream, g.frameId) ∈ a :=
      hstream ▸ hs.tidy.arrived g (mem_of_getLast? hlast)
    refine ⟨hs.tidy, fun hnone => ?_, fun n' hn' => ?_⟩
    · cases hnone.symm.trans hnext
    · cases hn'.symm.trans hnext
      refine ⟨g, hlast, rfl, fun id held hheld => ?_⟩
      rcases Assoc.get?_insert_eq_some hheld with ⟨rfl, rfl⟩ | ⟨-, hheld⟩
      · exact ⟨rfl, ne_zero_of_window (hwindow _ hg) hne hbefore, hstream.symm, hc.whole,
          hstream ▸ harrived⟩
      · exact hall id held hheld

theorem Clean.checkSender (hs : s.Clean h a) (r : VideoReceiver) (now : Instant) :
    (r.checkSender now s).1.Clean (h ++ (s.overdue now).toList.map .gaveUp) a := by
  obtain ⟨_, _, _, hcheck⟩ := r.checkSender_eq now s
  rw [hcheck]
  refine Clean.of_gate (s := s.expirePending now) ?_ rfl rfl
  rw [expirePending]
  cases hover : s.overdue now with
  | none =>
    rw [Option.toList_none, map_nil, append_nil]
    exact hs
  | some f =>
    obtain ⟨id, t, hheld⟩ : ∃ id t, s.pendingDelivery.get? id = some (t, f) := by
      rw [overdue, Option.map_eq_some_iff] at hover
      obtain ⟨held, hfirst, rfl⟩ := hover
      rw [Option.filter_eq_some_iff, firstHeld, Option.map_eq_some_iff] at hfirst
      obtain ⟨⟨e, he, rfl⟩, -⟩ := hfirst
      exact ⟨e.1, e.2.1, Assoc.get?_eq_some.2 (argmin_mem he)⟩
    rw [Option.toList_some, map_singleton]
    cases hnext : s.nextDelivery with
    | none => cases (hs.idle hnext id).symm.trans hheld
    | some next =>
      obtain ⟨g, hlast, -, hall⟩ := hs.running next hnext
      have hheldFor := hall id _ hheld
      refine ⟨hs.tidy.gaveUp (fun k hk => ?_) hheldFor.whole, fun _ _ => rfl,
        fun n hn => by cases hn⟩
      rw [hheldFor.stream_eq]
      rcases hs.tidy.eq_or_precedes hlast hk with rfl | hkg
      · exact le_rfl
      · exact hkg.le

end SenderState

/-! ## Runs -/

/-- A sender whose streams are delivered cleanly. -/
structure SenderView.Clean (v : SenderView) : Prop where
  tidy : Tidy v.history v.arrived
  clean : ∀ s, v.state = some s → s.Clean v.history v.arrived

theorem SenderState.Clean.view {s : SenderState} (hs : s.Clean h a) :
    SenderView.Clean ⟨some s, h, a⟩ :=
  ⟨hs.tidy, fun _ ht => by cases ht; exact hs⟩

theorem SenderState.Clean.received {s : SenderState} (hs : s.Clean h a) {now : Instant}
    {frameId : UInt32} {stream : Nat} {taken : SenderState × Option (ReassembledFrame × Bool)}
    (ht : s.Takes frameId stream taken)
    (hwindow : ∀ id, (stream, id) ∈ a → id.toNat < frameId.toNat + 512)
    (hc : ∀ c, taken.2 = some c → taken.1.Careful h c.1 c.2) :
    (SenderView.received ⟨some s, h, a⟩ stream frameId taken now).Clean := by
  have htaken : taken.1.Clean h ((stream, frameId) :: a) :=
    (hs.of_gate ht.pending ht.next).mono (subset_cons_self _ _)
  rw [SenderView.received, SenderState.deliver]
  cases hcompleted : taken.2 with
  | none =>
    dsimp only
    rw [map_nil, append_nil]
    exact htaken.view
  | some c =>
    obtain ⟨rfl, rfl⟩ := ht.frame c hcompleted
    refine (htaken.acceptCompleted (.head _) (fun id hid => ?_) (hc c hcompleted)).view
    rcases mem_cons.1 hid with hid | hid
    · cases hid
      exact Nat.lt_add_of_pos_right (by decide)
    · exact hwindow id hid

theorem SenderView.Clean.move {v : SenderView} (hv : v.Clean) (hd : v.Decodes) {m : SenderMove}
    (hw : v.InWindow m) (hc : v.Careful m) : (v.move m).Clean := by
  obtain ⟨state, h, a⟩ := v
  cases m with
  | enter id now =>
    cases state with
    | none =>
      refine ⟨hv.tidy, fun s hs => ?_⟩
      cases hs
      exact ⟨hv.tidy, fun _ _ => rfl, fun n hn => by cases hn⟩
    | some s => exact hv
  | forget => exact ⟨hv.tidy, fun s hs => by cases hs⟩
  | video pkt now pick =>
    cases state with
    | none => exact hv
    | some s =>
      have ht := SenderState.takes_processPacket now (hd.follows s rfl).frames pkt pick
      exact (hv.clean s rfl).received ht hw hc
  | fec pkt now =>
    cases state with
    | none => exact ⟨hv.tidy.mono (subset_cons_self _ _), fun s hs => by cases hs⟩
    | some s =>
      have ht := SenderState.takes_processFecPacket now (hd.follows s rfl).frames pkt
      exact (hv.clean s rfl).received ht hw hc
  | check r now =>
    cases state with
    | none =>
      rw [SenderView.move, Option.bind_none, Option.toList_none, map_nil, append_nil]
      exact hv
    | some s => exact ((hv.clean s rfl).checkSender r now).view
  | cleanup r now =>
    cases state with
    | none => exact hv
    | some s => exact ((hv.clean s rfl).of_gate (t := r.cleanupSender now s) rfl rfl).view

theorem allMoves_and {C D : SenderView → SenderMove → Prop} {v : SenderView}
    {ms : List SenderMove} (hC : v.AllMoves C ms) (hD : v.AllMoves D ms) :
    v.AllMoves (fun v m => C v m ∧ D v m) ms := by
  induction ms generalizing v with
  | nil => exact trivial
  | cons m ms ih => exact ⟨⟨hC.1, hD.1⟩, ih hC.2 hD.2⟩

theorem inWindow_of_all {a : List (Nat × UInt32)} {stream : Nat} {frameId id : UInt32}
    (hall : (a.all fun x => x.1 ≠ stream || x.2.toNat < frameId.toNat + 512) = true)
    (hid : (stream, id) ∈ a) : id.toNat < frameId.toNat + 512 := by
  have hone := all_eq_true.1 hall _ hid
  simpa using hone

theorem meets_inWindow {st : VideoRun} {e : VideoEvent} (hw : st.inWindow e = true) :
    VideoRun.Meets SenderView.InWindow st e := by
  intro id
  cases e with
  | video pkt now picks =>
    rw [VideoRun.moves]
    by_cases hbad : VideoReceiver.malformed pkt = true
    · rw [if_pos hbad]
      exact trivial
    · rw [if_neg hbad]
      -- Neither the end of a sender nor its entry is a packet.
      by_cases hid : id = pkt.senderId
      · subst hid
        have hpacket : ∀ i, (pkt.stream, i) ∈ st.arrived pkt.senderId →
            i.toNat < pkt.frameId.toNat + 512 := fun i hi => inWindow_of_all hw hi
        rw [if_pos rfl]
        split
        · exact ⟨trivial, trivial, hpacket, trivial⟩
        · exact ⟨trivial, hpacket, trivial⟩
      · rw [if_neg hid, append_nil]
        split
        · exact ⟨trivial, trivial⟩
        · exact trivial
  | fec pkt now =>
    rw [VideoRun.moves]
    split
    · rename_i hid
      subst hid
      exact ⟨fun i hi => inWindow_of_all hw hi, trivial⟩
    · exact trivial
  | checkMissing now => exact ⟨trivial, trivial⟩
  | cleanupStale now =>
    rw [VideoRun.moves]
    split
    · exact ⟨trivial, trivial, trivial⟩
    · exact ⟨trivial, trivial⟩

theorem meets_careful_keyframe :
    VideoRun.Meets SenderView.Careful {} (.video (onePacket 0 true 0) 0 {}) := by
  intro id
  by_cases hid : id = [49]
  · subst hid
    refine ⟨trivial, fun c hc => ?_, trivial⟩
    cases hc
    refine ⟨fun e he => ?_, fun _ g hg => ?_, fun _ _ id held hheld => ?_, fun hdelta => ?_⟩
    · have hstreams : ∀ e ∈ [0, 0], e = 0 := by decide
      exact hstreams e he
    · exact absurd hg not_mem_nil
    · cases hheld
    · cases hdelta
  · have hmoves : ({} : VideoRun).moves id (.video (onePacket 0 true 0) 0 {}) = [] :=
      if_neg (c := id = [49]) hid
    rw [hmoves]
    exact trivial

/-- Keyframe 0 comes again after the frame behind it. -/
def comesAgain : List VideoEvent :=
  [.video (onePacket 0 true 0) 0 {}, .video (onePacket 1 false 0) 0 {},
    .video (onePacket 0 true 0) 0 {}]

/-- Frame 3 of the old stream is held when the new one begins, and goes after its 2. -/
def heldOver : List VideoEvent :=
  [.video (onePacket 0 true 0) 0 {}, .video (onePacket 1 false 0) 0 {},
    .video (onePacket 3 false 0) 0 {}, .video (onePacket 0 true 1) 0 {},
    .video (onePacket 1 false 1) 0 {}, .video (onePacket 2 false 1) 0 {}]

/-- Frame 2 of the old stream is held when the new one begins, and waited too long. -/
def heldTooLong : List VideoEvent :=
  [.video (onePacket 0 true 0) 0 {}, .video (onePacket 2 false 0) 0 {},
    .video (onePacket 0 true 1) (fromMillis 60) {}, .checkMissing (fromMillis 100)]

/-- Each call of a run is in its window. -/
def allInWindow (st : VideoRun) : List VideoEvent → Bool
  | [] => true
  | e :: events => st.inWindow e && allInWindow (st.step e) events

theorem reachable_of_allInWindow {events : List VideoEvent} {st : VideoRun}
    (hst : (videoSystem.given fun st e => st.inWindow e = true).Reachable st)
    (hall : allInWindow st events = true) :
    (videoSystem.given fun st e => st.inWindow e = true).Reachable
      (events.foldl VideoRun.step st) := by
  induction events generalizing st with
  | nil => exact hst
  | cons e events ih =>
    obtain ⟨he, hevents⟩ := Bool.and_eq_true_iff.1 hall
    exact ih (.step e hst ⟨rfl, he⟩) hevents

/-- A run in its window that breaks what is expected of streams. -/
def Spoils (events : List VideoEvent) : Prop :=
  (videoSystem.given fun st e => st.inWindow e = true).Reachable (runVideo events) ∧
    ¬ ((runVideo events).history [49]).Pairwise Fresh

end Decibell.Media
