import Decibell.Lib.Run
import Mathlib.Data.List.Induction

/-!
# The send queue

Frames that the renderer has encoded are queued for the thread that sends them. A frame that finds
the queue full is shed, and after it every frame that is not a keyframe, until a keyframe is queued
again; the encoder is asked for one.

A `Run` has one sink, and the history of what was submitted to it.
-/

namespace Decibell.SendQueue

open Lib List Option

structure QueuedFrame where
  codec : UInt8
  keyframe : Bool
  data : List UInt8
deriving DecidableEq

structure ShedState where
  awaitingKeyframe : Bool
  /-- When a keyframe was last asked for, in milliseconds. -/
  lastKeyframeRequest : Option Nat

def sendQueueDepth : Nat := 8

def keyframeRetry : Nat := 500

/-- The bounded channel to the sender thread. -/
structure Channel where
  queue : List QueuedFrame
  /-- The thread is there. -/
  connected : Bool

inductive TrySend where
  | ok (tx : Channel)
  | full
  | disconnected

def Channel.trySend (tx : Channel) (f : QueuedFrame) : TrySend :=
  if !tx.connected then .disconnected
  else if tx.queue.length < sendQueueDepth then .ok { tx with queue := tx.queue ++ [f] }
  else .full

structure FrameSink where
  /-- There is none if the thread could not be started. -/
  tx : Option Channel
  shed : ShedState

/-- A sink as it is installed, with its thread or without. -/
def setFrameSink (spawned : Bool) : FrameSink :=
  ⟨if spawned then some ⟨[], true⟩ else none, ⟨false, none⟩⟩

inductive Submit where
  | queued
  | shed
deriving DecidableEq

/-- Asks for a keyframe, once in a retry period. -/
def maybeRequestKeyframe (shed : ShedState) (now : Nat) : ShedState × Bool :=
  if shed.lastKeyframeRequest.any fun t => now - t < keyframeRetry then (shed, false)
  else ({ shed with lastKeyframeRequest := some now }, true)

/-- A frame for the sink: the sink, what became of it, and if a keyframe was asked for. -/
def submitRendererFrame (sink : FrameSink) (now : Nat) (f : QueuedFrame) :
    FrameSink × Submit × Bool :=
  match sink.tx with
  -- The frame is sent at once.
  | none => (sink, .queued, false)
  | some tx =>
    if sink.shed.awaitingKeyframe && !f.keyframe then
      let asked := maybeRequestKeyframe sink.shed now
      ({ sink with shed := asked.1 }, .shed, asked.2)
    else
      match tx.trySend f with
      | .ok tx =>
        ({ tx := some tx
           shed := if f.keyframe then { sink.shed with awaitingKeyframe := false } else sink.shed },
          .queued, false)
      | .full =>
        let shed := if !sink.shed.awaitingKeyframe then ⟨true, none⟩ else sink.shed
        let asked := maybeRequestKeyframe shed now
        ({ sink with shed := asked.1 }, .shed, asked.2)
      -- The thread is gone: the frame is sent at once.
      | .disconnected => (sink, .queued, false)

/-! ## Runs -/

structure Submitted where
  frame : QueuedFrame
  time : Nat
  outcome : Submit
  /-- A keyframe was asked for. -/
  asked : Bool
  /-- The sender thread had ended. -/
  gone : Bool

structure Run where
  sink : FrameSink
  history : List Submitted
  /-- What the sender thread has dequeued. -/
  sent : List QueuedFrame

inductive Action where
  | submit (now : Nat) (f : QueuedFrame)
  | dequeue
  | die

/-- The thread of a sink is gone. -/
def FrameSink.gone (sink : FrameSink) : Bool := sink.tx.any fun tx => !tx.connected

namespace Run

variable (s : Run)

def submit (now : Nat) (f : QueuedFrame) : Run :=
  let r := submitRendererFrame s.sink now f
  { s with
    sink := r.1
    history := s.history ++ [⟨f, now, r.2.1, r.2.2, s.sink.gone⟩] }

def dequeue : Run :=
  match s.sink.tx with
  | some ⟨f :: queue, true⟩ =>
    { s with sink := { s.sink with tx := some ⟨queue, true⟩ }, sent := s.sent ++ [f] }
  | _ => s

def die : Run := { s with sink := { s.sink with tx := s.sink.tx.map fun _ => ⟨[], false⟩ } }

def next : Action → Run
  | .submit now f => s.submit now f
  | .dequeue => s.dequeue
  | .die => s.die

end Run

def runs : System Run Action where
  init s := ∃ spawned, s = ⟨setFrameSink spawned, [], []⟩
  step s a s' := s' = s.next a

/-- The first frame that is submitted is a keyframe. -/
def StartsWithKeyframe (history : List Submitted) : Prop :=
  ∀ x ∈ history.head?, x.frame.keyframe = true

/-! ## What holds of the history -/

def Submitted.opens (x : Submitted) : Prop := x.outcome = .queued ∧ x.frame.keyframe = true

/-- Something was shed, and no keyframe was queued since. -/
def Awaited (history : List Submitted) : Prop :=
  ∃ before x after, history = before ++ x :: after ∧ x.outcome = .shed ∧ ∀ y ∈ after, ¬y.opens

/-- A keyframe was last asked for at a time. -/
def LastAsked (history : List Submitted) (t : Nat) : Prop :=
  ∃ before x after, history = before ++ x :: after ∧ x.asked = true ∧ x.time = t ∧
    ∀ y ∈ after, y.asked = false

/-- Each delta queued is behind frames queued, down to a keyframe. -/
def Decodable (history : List Submitted) : Prop :=
  ∀ before x after, history = before ++ x :: after → x.outcome = .queued →
    x.frame.keyframe = false →
      ∃ older k mid, before = older ++ k :: mid ∧ k.opens ∧ ∀ y ∈ mid, y.outcome = .queued

/-- Nothing but a keyframe is queued after something was shed. -/
def ShedUntilKeyframe (history : List Submitted) : Prop :=
  ∀ before x after, history = before ++ x :: after → Awaited before → x.outcome = .queued →
    x.frame.keyframe = true

/-- The first shed asks for a keyframe, while the thread is there. -/
def AskedAtFirst (history : List Submitted) : Prop :=
  ∀ before x after, history = before ++ x :: after → x.outcome = .shed → x.gone = false →
    ¬Awaited before → x.asked = true

/-- Each shed asks again once the retry period has passed. -/
def AskedAgain (history : List Submitted) : Prop :=
  ∀ before x after t, history = before ++ x :: after → x.outcome = .shed → LastAsked before t →
    keyframeRetry ≤ x.time - t → x.asked = true

/-! ## Histories, one frame longer -/

section Histories

variable {history : List Submitted} {x : Submitted} {t : Nat}

theorem snoc_eq_split {α : Type} {xs before after : List α} {x y : α}
    (h : xs ++ [x] = before ++ y :: after) :
    after = [] ∧ y = x ∧ before = xs ∨
      ∃ after', after = after' ++ [x] ∧ xs = before ++ y :: after' := by
  rcases eq_nil_or_concat after with rfl | ⟨after', z, rfl⟩
  · obtain ⟨hxs, hx⟩ := append_inj' h rfl
    exact .inl ⟨rfl, (singleton_inj.1 hx).symm, hxs.symm⟩
  · rw [concat_eq_append, ← cons_append, ← append_assoc] at h
    obtain ⟨hxs, hx⟩ := append_inj' h rfl
    obtain rfl := singleton_inj.1 hx
    exact .inr ⟨after', concat_eq_append, hxs⟩

/-- What holds of a history's splits holds of a longer one's, if of the last. -/
theorem splits_snoc {P : List Submitted → Submitted → Prop}
    (h : ∀ before y after, history = before ++ y :: after → P before y) (hx : P history x)
    (before : List Submitted) (y : Submitted) (after : List Submitted)
    (hsplit : history ++ [x] = before ++ y :: after) : P before y := by
  rcases snoc_eq_split hsplit with ⟨-, rfl, rfl⟩ | ⟨after', -, hsplit⟩
  · exact hx
  · exact h before y after' hsplit

theorem AskedAgain.snoc (h : AskedAgain history)
    (hx : x.outcome = .shed → ∀ t, LastAsked history t → keyframeRetry ≤ x.time - t →
      x.asked = true) : AskedAgain (history ++ [x]) := fun before y after t hsplit =>
  splits_snoc (P := fun before y =>
      y.outcome = .shed → LastAsked before t → keyframeRetry ≤ y.time - t → y.asked = true)
    (fun before y after hsplit => h before y after t hsplit) (fun hshed => hx hshed t)
    before y after hsplit

theorem not_awaited_nil : ¬Awaited [] := by
  rintro ⟨before, x, after, h, -⟩
  exact cons_ne_nil _ _ (append_eq_nil_iff.1 h.symm).2

theorem awaited_snoc : Awaited (history ++ [x]) ↔
    x.outcome = .shed ∨ Awaited history ∧ ¬x.opens := by
  constructor
  · rintro ⟨before, y, after, hsplit, hshed, hafter⟩
    rcases snoc_eq_split hsplit with ⟨-, rfl, -⟩ | ⟨after', rfl, hhistory⟩
    · exact .inl hshed
    · exact .inr ⟨⟨before, y, after', hhistory, hshed, fun z hz =>
        hafter z (mem_append_left _ hz)⟩, hafter x (by simp)⟩
  · rintro (hshed | ⟨⟨before, y, after, rfl, hshed, hafter⟩, hx⟩)
    · exact ⟨history, x, [], rfl, hshed, fun _ hy => absurd hy not_mem_nil⟩
    · refine ⟨before, y, after ++ [x], by simp, hshed, fun z hz => ?_⟩
      rcases mem_append.1 hz with hz | hz
      · exact hafter z hz
      · exact mem_singleton.1 hz ▸ hx

theorem LastAsked.snoc_of_asked (hx : x.asked = true) : LastAsked (history ++ [x]) x.time :=
  ⟨history, x, [], rfl, hx, rfl, fun _ hy => absurd hy not_mem_nil⟩

theorem LastAsked.snoc (h : LastAsked history t) (hx : x.asked = false) :
    LastAsked (history ++ [x]) t := by
  obtain ⟨before, y, after, rfl, hasked, htime, hafter⟩ := h
  refine ⟨before, y, after ++ [x], by simp, hasked, htime, fun z hz => ?_⟩
  rcases mem_append.1 hz with hz | hz
  · exact hafter z hz
  · exact mem_singleton.1 hz ▸ hx

theorem LastAsked.unique {u : Nat} (ht : LastAsked history t) (hu : LastAsked history u) :
    t = u := by
  induction history using List.reverseRecOn with
  | nil =>
    obtain ⟨before, x, after, h, -⟩ := ht
    exact absurd (append_eq_nil_iff.1 h.symm).2 (cons_ne_nil _ _)
  | append_singleton history x ih =>
    -- The last frame, or one before it.
    have hlast {v : Nat} (hv : LastAsked (history ++ [x]) v) :
        x.asked = true ∧ x.time = v ∨ x.asked = false ∧ LastAsked history v := by
      obtain ⟨before, y, after, hsplit, hasked, htime, hafter⟩ := hv
      rcases snoc_eq_split hsplit with ⟨-, rfl, -⟩ | ⟨after', rfl, hhistory⟩
      · exact .inl ⟨hasked, htime⟩
      · exact .inr ⟨hafter x (by simp), before, y, after', hhistory, hasked, htime, fun z hz =>
          hafter z (mem_append_left _ hz)⟩
    rcases hlast ht with ⟨hx, rfl⟩ | ⟨hx, ht⟩
    · rcases hlast hu with ⟨-, rfl⟩ | ⟨hx', -⟩
      · rfl
      · rw [hx] at hx'
        cases hx'
    · rcases hlast hu with ⟨hx', -⟩ | ⟨-, hu⟩
      · rw [hx] at hx'
        cases hx'
      · exact ih ht hu

theorem outcome_ne_shed : x.outcome ≠ .shed ↔ x.outcome = .queued := by
  cases x.outcome <;> decide

theorem queued_of_not_awaited (h : ¬Awaited (history ++ [x])) : x.outcome = .queued :=
  outcome_ne_shed.1 fun hshed => h (awaited_snoc.2 (.inl hshed))

theorem StartsWithKeyframe.of_append {after : List Submitted}
    (h : StartsWithKeyframe (history ++ after)) : StartsWithKeyframe history := by
  cases history with
  | nil => exact fun x hx => nomatch hx
  | cons y history => exact h

theorem queued_down (hstarts : StartsWithKeyframe history) (hshed : ShedUntilKeyframe history)
    (hne : history ≠ []) (hnot : ¬Awaited history) : ∃ older k mid, history = older ++ k :: mid ∧
      k.opens ∧ ∀ y ∈ mid, y.outcome = .queued := by
  induction history using List.reverseRecOn with
  | nil => exact absurd rfl hne
  | append_singleton history x ih =>
    have hqueued := queued_of_not_awaited hnot
    by_cases hkey : x.frame.keyframe = true
    · exact ⟨history, x, [], rfl, ⟨hqueued, hkey⟩, fun _ hy => absurd hy not_mem_nil⟩
    · -- It is behind others, and nothing was awaited there.
      have hbefore : ¬Awaited history := fun h => hkey (hshed history x [] rfl h hqueued)
      have hne' : history ≠ [] := by
        rintro rfl
        exact hkey (hstarts x rfl)
      obtain ⟨older, k, mid, rfl, hk, hmid⟩ := ih hstarts.of_append (fun before y after hsplit =>
        hshed before y (after ++ [x]) (by rw [hsplit]; simp)) hne' hbefore
      refine ⟨older, k, mid ++ [x], by simp, hk, fun y hy => ?_⟩
      rcases mem_append.1 hy with hy | hy
      · exact hmid y hy
      · exact mem_singleton.1 hy ▸ hqueued

theorem decodable_of_shed (hstarts : StartsWithKeyframe history)
    (hshed : ShedUntilKeyframe history) : Decodable history := by
  intro before x after hsplit hqueued hdelta
  subst hsplit
  have hnot : ¬Awaited before := fun h => by
    have hkey := hshed before x after rfl h hqueued
    rw [hdelta] at hkey
    cases hkey
  have hne : before ≠ [] := by
    rintro rfl
    have hkey := hstarts x rfl
    rw [hdelta] at hkey
    cases hkey
  exact queued_down hstarts.of_append (fun older y mid hsplit =>
    hshed older y (mid ++ x :: after) (by rw [hsplit]; simp)) hne hnot

end Histories

/-! ## The sink -/

/-- What one sink keeps. -/
structure Kept (s : Run) : Prop where
  flag : Awaited s.history → s.sink.shed.awaitingKeyframe = true
  flag_of_awaiting : s.sink.shed.awaitingKeyframe = true → s.sink.gone = false → Awaited s.history
  lastAsked : s.sink.shed.awaitingKeyframe = true →
    ∃ t, s.sink.shed.lastKeyframeRequest = some t ∧ LastAsked s.history t
  shedUntilKeyframe : ShedUntilKeyframe s.history
  askedAtFirst : AskedAtFirst s.history
  askedAgain : AskedAgain s.history
  inline : s.sink.tx = none → s.sink.shed.awaitingKeyframe = false
  /-- What was queued was dequeued, in order, or is in the queue. -/
  queue : ∀ tx, s.sink.tx = some tx → tx.queue.length ≤ sendQueueDepth ∧
    (tx.connected = true → s.sent ++ tx.queue =
      (s.history.filter fun x => x.outcome = .queued).map Submitted.frame)

section Steps

variable {s : Run} {now : Nat} {f : QueuedFrame}

theorem kept_start (spawned : Bool) : Kept ⟨setFrameSink spawned, [], []⟩ where
  flag h := absurd h not_awaited_nil
  flag_of_awaiting h := absurd h Bool.false_ne_true
  lastAsked h := absurd h Bool.false_ne_true
  shedUntilKeyframe _ _ _ h := absurd (append_eq_nil_iff.1 h.symm).2 (cons_ne_nil _ _)
  askedAtFirst _ _ _ h := absurd (append_eq_nil_iff.1 h.symm).2 (cons_ne_nil _ _)
  askedAgain _ _ _ _ h := absurd (append_eq_nil_iff.1 h.symm).2 (cons_ne_nil _ _)
  inline _ := rfl
  queue tx htx := by
    cases spawned with
    | false => cases htx
    | true =>
      cases htx
      exact ⟨Nat.zero_le _, fun _ => rfl⟩

theorem maybeRequestKeyframe_spec (shed : ShedState) (now : Nat) :
    (maybeRequestKeyframe shed now).1.awaitingKeyframe = shed.awaitingKeyframe ∧
    ((maybeRequestKeyframe shed now).2 = true ∧
        (maybeRequestKeyframe shed now).1.lastKeyframeRequest = some now ∨
      (maybeRequestKeyframe shed now).2 = false ∧ ∃ t, shed.lastKeyframeRequest = some t ∧
        (maybeRequestKeyframe shed now).1.lastKeyframeRequest = some t ∧
          now - t < keyframeRetry) := by
  rw [maybeRequestKeyframe]
  split
  · next hrecent =>
    rcases ht : shed.lastKeyframeRequest with _ | t
    · rw [ht] at hrecent
      cases hrecent
    · rw [ht] at hrecent
      exact ⟨rfl, .inr ⟨rfl, t, rfl, rfl, of_decide_eq_true hrecent⟩⟩
  · exact ⟨rfl, .inl ⟨rfl, rfl⟩⟩

theorem submitRendererFrame_cases (sink : FrameSink) (now : Nat) (f : QueuedFrame) :
    (submitRendererFrame sink now f = (sink, .queued, false) ∧
      (sink.tx = none ∨ sink.gone = true ∧
        (sink.shed.awaitingKeyframe = true → f.keyframe = true))) ∨
    (∃ tx, sink.tx = some tx ∧ tx.connected = true ∧ tx.queue.length < sendQueueDepth ∧
      (sink.shed.awaitingKeyframe = true → f.keyframe = true) ∧
      submitRendererFrame sink now f = (⟨some { tx with queue := tx.queue ++ [f] },
        if f.keyframe then { sink.shed with awaitingKeyframe := false } else sink.shed⟩,
        .queued, false)) ∨
    ∃ tx shed asked, sink.tx = some tx ∧
      submitRendererFrame sink now f = (⟨some tx, shed⟩, .shed, asked) ∧
      shed.awaitingKeyframe = true ∧
      (asked = true ∧ shed.lastKeyframeRequest = some now ∨
        asked = false ∧ sink.shed.awaitingKeyframe = true ∧ ∃ t,
          sink.shed.lastKeyframeRequest = some t ∧ shed.lastKeyframeRequest = some t ∧
            now - t < keyframeRetry) := by
  rw [submitRendererFrame]
  rcases htx : sink.tx with _ | tx
  · exact .inl ⟨rfl, .inl rfl⟩
  · dsimp only
    obtain ⟨hflag, hasked⟩ := maybeRequestKeyframe_spec sink.shed now
    split
    · next hdelta =>
      -- A delta, while a keyframe is awaited.
      rw [Bool.and_eq_true] at hdelta
      refine .inr (.inr ⟨tx, _, _, rfl, by rw [← htx], hflag.trans hdelta.1, ?_⟩)
      rcases hasked with hasked | ⟨hasked, ht⟩
      · exact .inl hasked
      · exact .inr ⟨hasked, hdelta.1, ht⟩
    · next hkey =>
      have hkey : sink.shed.awaitingKeyframe = true → f.keyframe = true := fun hawaiting => by
        simpa [hawaiting] using hkey
      rw [Channel.trySend]
      by_cases hconnected : tx.connected = true
      · rw [hconnected, Bool.not_true, if_neg Bool.false_ne_true]
        split
        · next tx' hok =>
          split at hok
          · next hroom =>
            cases hok
            exact .inr (.inl ⟨tx, rfl, hconnected, hroom, hkey, by rw [hconnected]⟩)
          · cases hok
        · -- The queue is full.
          refine .inr (.inr ⟨tx, _, _, rfl, by rw [← htx], ?_, ?_⟩)
          · rw [(maybeRequestKeyframe_spec _ now).1]
            by_cases hawaiting : sink.shed.awaitingKeyframe = true
            · rw [if_neg (by simp [hawaiting])]
              exact hawaiting
            · rw [if_pos (by simpa using hawaiting)]
          · by_cases hawaiting : sink.shed.awaitingKeyframe = true
            · rw [if_neg (by simp [hawaiting])]
              rcases hasked with hasked | ⟨hasked, ht⟩
              · exact .inl hasked
              · exact .inr ⟨hasked, hawaiting, ht⟩
            · rw [if_pos (by simpa using hawaiting)]
              exact .inl ⟨rfl, rfl⟩
        · next hdisconnected =>
          split at hdisconnected <;> cases hdisconnected
      · have hgone : (!tx.connected) = true := by simpa using hconnected
        rw [if_pos hgone]
        exact .inl ⟨rfl, .inr ⟨by rw [FrameSink.gone, htx]; exact hgone, hkey⟩⟩

theorem Kept.submit (h : Kept s) (now : Nat) (f : QueuedFrame) : Kept (s.submit now f) := by
  rw [Run.submit]
  rcases submitRendererFrame_cases s.sink now f with ⟨heq, hinline⟩ |
    ⟨tx, htx, hconnected, hroom, hkey, heq⟩ | ⟨tx, shed, asked, htx, heq, hflag, hasked⟩
  · -- The frame is sent at once.
    rw [heq]
    have hkey : s.sink.shed.awaitingKeyframe = true → f.keyframe = true := fun hawaiting => by
      rcases hinline with hnone | ⟨-, hkey⟩
      · rw [h.inline hnone] at hawaiting
        cases hawaiting
      · exact hkey hawaiting
    exact
      { flag := fun hawaited => by
          rcases awaited_snoc.1 hawaited with hshed | ⟨hawaited, -⟩
          · cases hshed
          · exact h.flag hawaited
        flag_of_awaiting := fun hawaiting hgone => by
          rcases hinline with hnone | ⟨hgone', -⟩
          · rw [h.inline hnone] at hawaiting
            cases hawaiting
          · rw [hgone'] at hgone
            cases hgone
        lastAsked := fun hawaiting => by
          obtain ⟨t, ht, hlast⟩ := h.lastAsked hawaiting
          exact ⟨t, ht, hlast.snoc rfl⟩
        shedUntilKeyframe := splits_snoc h.shedUntilKeyframe fun hawaited _ =>
          hkey (h.flag hawaited)
        askedAtFirst := splits_snoc h.askedAtFirst fun hshed => by cases hshed
        askedAgain := h.askedAgain.snoc fun hshed => by cases hshed
        inline := h.inline
        queue := fun tx htx => by
          obtain ⟨hlength, -⟩ := h.queue tx htx
          refine ⟨hlength, fun hconnected => ?_⟩
          rcases hinline with hnone | ⟨hgone, -⟩
          · rw [hnone] at htx
            cases htx
          · rw [FrameSink.gone, htx, any_some, hconnected] at hgone
            cases hgone }
  · -- The frame is queued. A keyframe is not awaited any more.
    rw [heq]
    obtain ⟨hlength, hqueue⟩ := h.queue tx htx
    have hawaiting : (if f.keyframe then { s.sink.shed with awaitingKeyframe := false }
        else s.sink.shed).awaitingKeyframe = false := by
      split
      · rfl
      · next hdelta => exact Bool.eq_false_iff.2 fun hawaiting => hdelta (hkey hawaiting)
    exact
      { flag := fun hawaited => by
          rcases awaited_snoc.1 hawaited with hshed | ⟨hawaited, hopens⟩
          · cases hshed
          · exact absurd ⟨rfl, hkey (h.flag hawaited)⟩ hopens
        flag_of_awaiting := fun htrue => by
          rw [hawaiting] at htrue
          cases htrue
        lastAsked := fun htrue => by
          rw [hawaiting] at htrue
          cases htrue
        shedUntilKeyframe := splits_snoc h.shedUntilKeyframe fun hawaited _ =>
          hkey (h.flag hawaited)
        askedAtFirst := splits_snoc h.askedAtFirst fun hshed => by cases hshed
        askedAgain := h.askedAgain.snoc fun hshed => by cases hshed
        inline := fun _ => hawaiting
        queue := fun tx' htx' => by
          cases htx'
          refine ⟨?_, fun _ => ?_⟩
          · rw [length_append]
            exact hroom
          · rw [← append_assoc, hqueue hconnected, filter_append, map_append]
            rfl }
  · -- The frame is shed.
    rw [heq]
    have hnot : s.sink.gone = false → ¬Awaited s.history → asked = true := fun hgone hnot => by
      rcases hasked with ⟨hasked, -⟩ | ⟨-, hawaiting, -⟩
      · exact hasked
      · exact absurd (h.flag_of_awaiting hawaiting hgone) hnot
    have hagain (t : Nat) (hlast : LastAsked s.history t) (hretry : keyframeRetry ≤ now - t) :
        asked = true := by
      rcases hasked with ⟨hasked, -⟩ | ⟨-, hawaiting, t', ht', -, hrecent⟩
      · exact hasked
      · -- The sink knows the last time.
        obtain ⟨u, hu, hlast'⟩ := h.lastAsked hawaiting
        rw [ht', some.injEq] at hu
        rw [hlast.unique hlast', ← hu] at hretry
        exact absurd hrecent (Nat.not_lt.2 hretry)
    exact
      { flag := fun _ => hflag
        flag_of_awaiting := fun _ _ => awaited_snoc.2 (.inl rfl)
        lastAsked := fun _ => by
          rcases hasked with ⟨rfl, hnow⟩ | ⟨rfl, hawaiting, t, ht, ht', -⟩
          · exact ⟨now, hnow, LastAsked.snoc_of_asked rfl⟩
          · obtain ⟨u, hu, hlast⟩ := h.lastAsked hawaiting
            rw [ht, some.injEq] at hu
            exact ⟨t, ht', hu ▸ hlast.snoc rfl⟩
        shedUntilKeyframe := splits_snoc h.shedUntilKeyframe fun _ hqueued => by cases hqueued
        askedAtFirst := splits_snoc h.askedAtFirst fun _ => hnot
        askedAgain := h.askedAgain.snoc fun _ => hagain
        inline := fun hnone => by cases hnone
        queue := fun tx' htx' => by
          cases htx'
          obtain ⟨hlength, hqueue⟩ := h.queue tx htx
          refine ⟨hlength, fun hconnected => ?_⟩
          rw [hqueue hconnected, filter_append, map_append]
          exact (append_nil _).symm }

theorem Kept.dequeue (h : Kept s) : Kept s.dequeue := by
  rw [Run.dequeue]
  split
  · next f queue htx =>
    obtain ⟨hlength, hqueue⟩ := h.queue _ htx
    have hgone : (FrameSink.gone { s.sink with tx := some ⟨queue, true⟩ }) = false := rfl
    exact
      { flag := h.flag
        flag_of_awaiting := fun hawaiting _ =>
          h.flag_of_awaiting hawaiting (by rw [FrameSink.gone, htx]; rfl)
        lastAsked := h.lastAsked
        shedUntilKeyframe := h.shedUntilKeyframe
        askedAtFirst := h.askedAtFirst
        askedAgain := h.askedAgain
        inline := fun hnone => by cases hnone
        queue := fun tx htx' => by
          cases htx'
          refine ⟨Nat.le_of_succ_le hlength, fun _ => ?_⟩
          rw [← hqueue rfl, append_assoc]
          rfl }
  · exact h

theorem Kept.die (h : Kept s) : Kept s.die where
  flag := h.flag
  flag_of_awaiting hawaiting hgone := by
    rcases htx : s.sink.tx with _ | tx
    · exact h.flag_of_awaiting hawaiting (by rw [FrameSink.gone, htx]; rfl)
    · rw [Run.die, FrameSink.gone, htx] at hgone
      cases hgone
  lastAsked := h.lastAsked
  shedUntilKeyframe := h.shedUntilKeyframe
  askedAtFirst := h.askedAtFirst
  askedAgain := h.askedAgain
  inline hnone := h.inline (map_eq_none_iff.1 hnone)
  queue tx htx := by
    obtain ⟨tx', -, rfl⟩ := map_eq_some_iff.1 htx
    exact ⟨Nat.zero_le _, fun h => absurd h Bool.false_ne_true⟩

theorem Kept.next (h : Kept s) (a : Action) : Kept (s.next a) := by
  cases a with
  | submit now f => exact h.submit now f
  | dequeue => exact h.dequeue
  | die => exact h.die

end Steps

/-- In every run of a sink that starts with a keyframe what is queued can be decoded: each delta is
    behind frames queued, down to a keyframe. After a shed only a keyframe is queued, asked for at
    the first shed, and again by each once the retry period has passed. What is queued is dequeued
    in order. -/
theorem sendQueue_decodable {s : Run} (h : runs.Reachable s) :
    (StartsWithKeyframe s.history → Decodable s.history) ∧ ShedUntilKeyframe s.history ∧
      AskedAtFirst s.history ∧ AskedAgain s.history ∧
      ∀ tx, s.sink.tx = some tx → tx.queue.length ≤ sendQueueDepth ∧
        (tx.connected = true → s.sent ++ tx.queue =
          (s.history.filter fun x => x.outcome = .queued).map Submitted.frame) := by
  have hkept : Kept s := by
    refine System.reachable_invariant (fun s hs => ?_) (fun s a s' hs hstep => ?_) h
    · obtain ⟨spawned, rfl⟩ := hs
      exact kept_start spawned
    · subst hstep
      exact hs.next a
  exact ⟨fun hstarts => decodable_of_shed hstarts hkept.shedUntilKeyframe, hkept.shedUntilKeyframe,
    hkept.askedAtFirst, hkept.askedAgain, hkept.queue⟩

/-- A keyframe and seven deltas fill the queue, and more are shed, until there is room and a
    keyframe. -/
def filledQueue : Run :=
  (([.submit 0 ⟨1, true, []⟩] ++ List.replicate 7 (.submit 10 ⟨1, false, []⟩) ++
    [.submit 20 ⟨1, false, []⟩, .dequeue, .submit 30 ⟨1, false, []⟩, .submit 600 ⟨1, false, []⟩,
      .submit 700 ⟨1, true, []⟩] : List Action)).foldl Run.next ⟨setFrameSink true, [], []⟩

theorem sendQueue_decodable_filledQueue :
    filledQueue.history.map (fun x => (x.outcome, x.asked)) =
      List.replicate 8 (.queued, false) ++ [(.shed, true), (.shed, false), (.shed, true),
        (.queued, false)] ∧
    Decodable filledQueue.history ∧ AskedAgain filledQueue.history := by
  have hreach : runs.Reachable filledQueue :=
    System.Reachable.foldl (fun _ _ => rfl) _ (.init ⟨true, rfl⟩)
  obtain ⟨hdecodable, -, -, hagain, -⟩ := sendQueue_decodable hreach
  exact ⟨by decide +kernel, hdecodable fun x hx => by cases hx; rfl, hagain⟩

end Decibell.SendQueue
