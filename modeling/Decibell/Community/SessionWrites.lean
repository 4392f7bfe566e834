import Decibell.Community.Text
import Decibell.Lib.Run
import Mathlib.Algebra.GroupWithZero.Nat

/-!
# The writes of a session

What is delivered to a session is queued, and written frame by frame: the front of the queue stays
there until its write has completed. A client that does not read has its connection closed once the
queue is full.
-/

namespace Decibell.SessionWrites

open Lib List Option

abbrev Frame := Bytes

def maxQueuedMessages : Nat := 1024
def maxQueuedBytes : Nat := 16 * 1024 * 1024

structure Session where
  writeQueue : List Frame := []
  queuedBytes : Nat := 0
  /-- The backlog was full. -/
  overflowed : Bool := false
  dropped : Bool := false
  /-- It is dropped once the queue is empty. -/
  closing : Bool := false
  /-- A drop has begun, and has not reached the queue yet. -/
  finishing : Bool := false
  doWrites : Nat := 0
  /-- The writes started and not over, with their frames. -/
  inFlight : List Frame := []
  /-- The frames queued, those whose write started, and those whose write completed or failed. -/
  accepted : List Frame := []
  written : List Frame := []
  completed : List Frame := []
  failed : List Frame := []

namespace Session

variable (s : Session)

def deliver (f : Frame) : Session :=
  if s.overflowed || s.dropped then s
  else if maxQueuedMessages ≤ s.writeQueue.length || maxQueuedBytes < s.queuedBytes + f.length then
    { s with overflowed := true, finishing := true }
  else
    { s with
      queuedBytes := s.queuedBytes + f.length
      writeQueue := s.writeQueue ++ [f]
      accepted := s.accepted ++ [f]
      doWrites := if s.writeQueue = [] then s.doWrites + 1 else s.doWrites }

/-- One of the writes that are about to start. -/
def doWrite : Session :=
  match s.writeQueue with
  | [] => { s with doWrites := s.doWrites - 1 }
  | f :: _ =>
    { s with
      doWrites := s.doWrites - 1
      inFlight := s.inFlight ++ [f]
      written := s.written ++ [f] }

/-- The write of a frame is over: it is in flight no more. -/
def complete (f : Frame) : Session :=
  { s with inFlight := s.inFlight.erase f, completed := s.completed ++ [f] }

/-- The front leaves the queue, and the next is written. -/
def pop : Session :=
  if s.dropped then s
  else
    match s.writeQueue with
    | [] => s
    | front :: rest =>
      { s with
        queuedBytes := s.queuedBytes - front.length
        writeQueue := rest
        doWrites := if rest = [] then s.doWrites else s.doWrites + 1
        finishing := s.finishing || (rest = [] && s.closing) }

def writeCompletes (f : Frame) : Session := (s.complete f).pop

def writeFails (f : Frame) : Session :=
  { s with inFlight := s.inFlight.erase f, failed := s.failed ++ [f], finishing := true }

def closeAfterFlush : Session :=
  { s with closing := true, finishing := s.finishing || s.writeQueue = [] }

/-- `drop_connection`, when it has the lock of the queue. -/
def drop : Session := { s with dropped := true, writeQueue := [], queuedBytes := 0 }

end Session

/-! ## Runs -/

inductive Event
  | deliver (f : Frame)
  | doWrite
  | writeCompletes (f : Frame)
  | writeFails (f : Frame)
  | closeAfterFlush
  /-- The session is dropped: it was `finishing`, or its connection is lost. -/
  | drop

def Session.step (s : Session) : Event → Option Session
  | .deliver f => some (s.deliver f)
  | .doWrite => if 0 < s.doWrites then some s.doWrite else none
  | .writeCompletes f => if f ∈ s.inFlight then some (s.writeCompletes f) else none
  | .writeFails f => if f ∈ s.inFlight then some (s.writeFails f) else none
  | .closeAfterFlush => some s.closeAfterFlush
  | .drop => some s.drop

def system : System Session Event where
  init s := s = {}
  step s e s' := s.step e = some s'

/-! ## What is kept -/

/-- The size of the frames of a queue. -/
def bytes (queue : List Frame) : Nat := (queue.map (·.length)).sum

/-- A session not dropped: the queue is what was accepted and has not completed, only its front is,
    or is about to be, written, or failed. -/
structure Open (s : Session) : Prop where
  accepted : s.accepted = s.completed ++ s.writeQueue
  written : s.written = s.completed ++ (s.failed ++ s.inFlight)
  front : ∀ f ∈ s.failed ++ s.inFlight, s.writeQueue.head? = some f
  waits : s.writeQueue ≠ [] → (s.failed ++ s.inFlight).length + s.doWrites = 1
  idle : s.writeQueue = [] → s.doWrites = 0

theorem Open.written_eq_nil {s : Session} (h : Open s) (hempty : s.writeQueue = []) :
    s.failed ++ s.inFlight = [] := by
  rcases hstarted : s.failed ++ s.inFlight with - | ⟨g, l⟩
  · rfl
  · have hfront := h.front g (hstarted ▸ .head l)
    rw [hempty] at hfront
    cases hfront

/-- One write at most is in flight, about to start, or failed; writes start and complete in order;
    the queue is within its caps, its size known. -/
structure Kept (s : Session) : Prop where
  single : (s.failed ++ s.inFlight).length + s.doWrites ≤ 1
  written : s.completed ++ (s.failed ++ s.inFlight) <+: s.written
  accepted : s.written <+: s.accepted
  messages : s.writeQueue.length ≤ maxQueuedMessages
  bytes : s.queuedBytes = bytes s.writeQueue
  bytes_le : s.queuedBytes ≤ maxQueuedBytes
  finishes : (s.overflowed = true ∨ s.failed ≠ []) → s.finishing = true
  opened : s.dropped = false → Open s
  dropped : s.dropped = true → s.writeQueue = []

namespace Kept

variable {s : Session} {f : Frame}

theorem only (h : Kept s) (hf : f ∈ s.inFlight) :
    s.failed = [] ∧ s.inFlight = [f] ∧ s.doWrites = 0 := by
  have hsingle := h.single
  rw [length_append] at hsingle
  have hpos := length_pos_of_mem hf
  obtain ⟨g, hflight⟩ := length_eq_one_iff.1 (show s.inFlight.length = 1 by omega)
  rw [hflight] at hf
  exact ⟨length_eq_zero_iff.1 (by omega), mem_singleton.1 hf ▸ hflight, by omega⟩

theorem drop (h : Kept s) : Kept s.drop where
  single := h.single
  written := h.written
  accepted := h.accepted
  messages := Nat.zero_le _
  bytes := rfl
  bytes_le := Nat.zero_le _
  finishes := h.finishes
  opened hno := Bool.noConfusion hno
  dropped _ := rfl

theorem deliver (h : Kept s) (f : Frame) : Kept (s.deliver f) := by
  rw [Session.deliver]
  split
  · exact h
  rename_i hgone
  rw [Bool.or_eq_true, not_or, Bool.not_eq_true, Bool.not_eq_true] at hgone
  split
  · exact { h with finishes := fun _ => rfl, opened := fun hopen => { h.opened hopen with } }
  rename_i hroom
  rw [Bool.or_eq_true, decide_eq_true_eq, decide_eq_true_eq, not_or, Nat.not_le,
    Nat.not_lt] at hroom
  have hopen := h.opened hgone.2
  have hbytes : s.queuedBytes + f.length = SessionWrites.bytes (s.writeQueue ++ [f]) := by
    rw [h.bytes, SessionWrites.bytes, SessionWrites.bytes, map_append, sum_append]
    rfl
  have haccepted : s.accepted ++ [f] = s.completed ++ (s.writeQueue ++ [f]) := by
    rw [hopen.accepted, append_assoc]
  have hmessages : (s.writeQueue ++ [f]).length ≤ maxQueuedMessages := by
    rw [length_append]
    exact hroom.1
  have hne : s.writeQueue ++ [f] ≠ [] := append_ne_nil_of_right_ne_nil _ (cons_ne_nil _ _)
  have hfront : ∀ g ∈ s.failed ++ s.inFlight, (s.writeQueue ++ [f]).head? = some g := fun g hg => by
    rw [head?_append, hopen.front g hg]
    rfl
  have hone : (s.failed ++ s.inFlight).length +
      (if s.writeQueue = [] then s.doWrites + 1 else s.doWrites) = 1 := by
    split
    · -- nothing was queued: a write starts
      rename_i hempty
      rw [hopen.written_eq_nil hempty, hopen.idle hempty]
      rfl
    · exact hopen.waits ‹_›
  exact
    { single := Nat.le_of_eq hone
      written := h.written
      accepted := h.accepted.trans (prefix_append _ _)
      messages := hmessages
      bytes := hbytes
      bytes_le := hroom.2
      finishes := h.finishes
      opened := fun _ =>
        ⟨haccepted, hopen.written, hfront, fun _ => hone, fun hempty => absurd hempty hne⟩
      dropped := fun hdropped => Bool.noConfusion (hgone.2.symm.trans hdropped) }

theorem doWrite (h : Kept s) (hstart : 0 < s.doWrites) : Kept s.doWrite := by
  have hsingle := h.single
  have hnone : s.failed ++ s.inFlight = [] := length_eq_zero_iff.1 (by omega)
  rw [Session.doWrite]
  split
  · rename_i hqueue
    exact
      { h with
        single := Nat.le_trans (Nat.add_le_add_left (Nat.sub_le _ _) _) hsingle
        opened := fun hopen =>
          absurd ((h.opened hopen).idle hqueue) (Nat.ne_of_gt hstart) }
  · rename_i f rest hqueue
    have hopen : s.dropped = false := Bool.eq_false_iff.2 fun hdropped => by
      rw [h.dropped hdropped] at hqueue
      cases hqueue
    obtain ⟨haccepted, hwritten, -, -, -⟩ := h.opened hopen
    have hstarted : s.failed ++ (s.inFlight ++ [f]) = [f] := by
      rw [← append_assoc, hnone]
      rfl
    have hone : (s.failed ++ (s.inFlight ++ [f])).length + (s.doWrites - 1) = 1 := by
      rw [hstarted, length_singleton]
      omega
    have hnext : s.written ++ [f] = s.completed ++ (s.failed ++ (s.inFlight ++ [f])) := by
      rw [hwritten, hnone, append_nil, hstarted]
    have hprefix : s.written ++ [f] <+: s.accepted := by
      rw [hnext, hstarted, haccepted, hqueue]
      exact ⟨rest, append_assoc _ _ _⟩
    have hfront : ∀ g ∈ s.failed ++ (s.inFlight ++ [f]), s.writeQueue.head? = some g := by
      intro g hg
      rw [hstarted] at hg
      rw [mem_singleton.1 hg, hqueue]
      rfl
    have hne : s.writeQueue ≠ [] := hqueue ▸ cons_ne_nil _ _
    exact
      { h with
        single := Nat.le_of_eq hone
        written := ⟨[], (append_nil _).trans hnext.symm⟩
        accepted := hprefix
        opened := fun _ =>
          ⟨haccepted, hnext, hfront, fun _ => hone, fun hempty => absurd hempty hne⟩ }

theorem writeFails (h : Kept s) (hf : f ∈ s.inFlight) : Kept (s.writeFails f) := by
  obtain ⟨hfailed, hflight, -⟩ := h.only hf
  have hstarted : (s.failed ++ [f]) ++ s.inFlight.erase f = s.failed ++ s.inFlight := by
    rw [hfailed, hflight, erase_cons_head]
    rfl
  exact
    { h with
      single := (congrArg (·.length + s.doWrites ≤ 1) hstarted).mpr h.single
      written := (congrArg (s.completed ++ · <+: s.written) hstarted).mpr h.written
      finishes := fun _ => rfl
      opened := fun hopen =>
        { h.opened hopen with
          written := hstarted ▸ (h.opened hopen).written
          front := hstarted ▸ (h.opened hopen).front
          waits := hstarted ▸ (h.opened hopen).waits } }

theorem writeCompletes (h : Kept s) (hf : f ∈ s.inFlight) : Kept (s.writeCompletes f) := by
  obtain ⟨hfailed, hflight, hidle⟩ := h.only hf
  have hnone : s.failed ++ s.inFlight.erase f = [] := by
    rw [hfailed, hflight, erase_cons_head]
    rfl
  have hcompleted : s.completed ++ [f] <+: s.written := by
    have hwritten := h.written
    rw [hfailed, hflight] at hwritten
    exact hwritten
  have hbefore : (s.completed ++ [f]) ++ (s.failed ++ s.inFlight.erase f) <+: s.written := by
    rw [hnone, append_nil]
    exact hcompleted
  rw [Session.writeCompletes, Session.pop]
  split
  · rename_i hdropped
    exact
      { h with
        single := by
          change (s.failed ++ s.inFlight.erase f).length + s.doWrites ≤ 1
          rw [hnone, hidle]
          exact Nat.zero_le 1
        written := hbefore
        opened := fun hopen => Bool.noConfusion (hopen.symm.trans hdropped) }
  rename_i hdropped
  obtain ⟨haccepted, hwritten, hfront, -, -⟩ := h.opened (Bool.eq_false_iff.2 hdropped)
  have hhead := hfront f (mem_append_right _ hf)
  split
  · rename_i hqueue
    rw [show s.writeQueue = [] from hqueue] at hhead
    cases hhead
  · rename_i g rest hqueue
    replace hqueue : s.writeQueue = g :: rest := hqueue
    rw [hqueue] at hhead
    obtain rfl := some.inj hhead
    have hsize : s.queuedBytes = g.length + SessionWrites.bytes rest := by
      rw [h.bytes, hqueue]
      exact sum_cons
    have hrest : rest.length + 1 ≤ maxQueuedMessages := by
      have hmessages := h.messages
      rw [hqueue] at hmessages
      exact hmessages
    have hnext : s.written = (s.completed ++ [g]) ++ (s.failed ++ s.inFlight.erase g) := by
      rw [hnone, append_nil, hwritten, hfailed, hflight]
      rfl
    have hwaits : (s.failed ++ s.inFlight.erase g).length +
        (if rest = [] then s.doWrites else s.doWrites + 1) = if rest = [] then 0 else 1 := by
      rw [hnone, hidle, length_nil, Nat.zero_add]
    exact
      { single := by
          refine Nat.le_trans (Nat.le_of_eq hwaits) ?_
          split
          · exact Nat.zero_le 1
          · exact Nat.le_refl 1
        written := hbefore
        accepted := h.accepted
        messages := Nat.le_of_succ_le hrest
        bytes := Nat.sub_eq_of_eq_add' hsize
        bytes_le := Nat.le_trans (Nat.sub_le _ _) h.bytes_le
        finishes := fun hover => by
          change (s.finishing || (rest = [] && s.closing)) = true
          rw [h.finishes hover, Bool.true_or]
        opened := fun _ =>
          { accepted := by
              change s.accepted = (s.completed ++ [g]) ++ rest
              rw [haccepted, hqueue, append_assoc]
              rfl
            written := hnext
            front := fun k hk => by
              change k ∈ s.failed ++ s.inFlight.erase g at hk
              rw [hnone] at hk
              cases hk
            waits := fun hmore => hwaits.trans (if_neg hmore)
            idle := fun hempty => (if_pos hempty).trans hidle }
        dropped := fun hgone => absurd hgone hdropped }

theorem closeAfterFlush (h : Kept s) : Kept s.closeAfterFlush :=
  { h with
    finishes := fun hover => by
      change (s.finishing || s.writeQueue = []) = true
      rw [h.finishes hover, Bool.true_or]
    opened := fun hopen => { h.opened hopen with } }

theorem step {s' : Session} {e : Event} (h : Kept s) (hs : s.step e = some s') : Kept s' := by
  cases e with
  | deliver f => exact some.inj hs ▸ h.deliver f
  | closeAfterFlush => exact some.inj hs ▸ h.closeAfterFlush
  | drop => exact some.inj hs ▸ h.drop
  | doWrite =>
    obtain ⟨hstart, hs⟩ := ite_none_right_eq_some.1 hs
    exact some.inj hs ▸ h.doWrite hstart
  | writeCompletes f =>
    obtain ⟨hf, hs⟩ := ite_none_right_eq_some.1 hs
    exact some.inj hs ▸ h.writeCompletes hf
  | writeFails f =>
    obtain ⟨hf, hs⟩ := ite_none_right_eq_some.1 hs
    exact some.inj hs ▸ h.writeFails hf

theorem init : Kept {} where
  single := Nat.zero_le 1
  written := prefix_rfl
  accepted := prefix_rfl
  messages := Nat.zero_le _
  bytes := rfl
  bytes_le := Nat.zero_le _
  finishes hover := by
    rcases hover with hover | hfailed
    · cases hover
    · exact absurd rfl hfailed
  opened _ :=
    { accepted := rfl
      written := rfl
      front := fun _ hf => absurd hf not_mem_nil
      waits := fun hne => absurd rfl hne
      idle := fun _ => rfl }
  dropped _ := rfl

theorem of_reachable (hs : system.Reachable s) : Kept s :=
  System.reachable_invariant (fun _ h => h ▸ init) (fun _ _ _ h hs => h.step hs) hs

end Kept

/-- In every run one write at most is in flight; the completed frames, then the one in flight, are
    the first written, and these the first accepted; the queue is within its caps, `queuedBytes` its
    size. Until the session is dropped the queue is what was accepted and has not completed, of
    which only its front was written: unless a drop is due its write is in flight or about to start.
    -/
theorem writes_in_order {s : Session} (hs : system.Reachable s) :
    s.inFlight.length ≤ 1 ∧
    s.completed ++ (s.failed ++ s.inFlight) <+: s.written ∧
    s.written <+: s.accepted ∧
    s.writeQueue.length ≤ maxQueuedMessages ∧
    s.queuedBytes = bytes s.writeQueue ∧
    s.queuedBytes ≤ maxQueuedBytes ∧
    (s.dropped = false →
      s.accepted = s.completed ++ s.writeQueue ∧
      s.written = s.completed ++ (s.failed ++ s.inFlight) ∧
      (∀ f ∈ s.failed ++ s.inFlight, s.writeQueue.head? = some f) ∧
      (s.finishing = false → s.overflowed = false ∧ s.failed = [] ∧
        (s.writeQueue ≠ [] → s.inFlight.length + s.doWrites = 1))) ∧
    (s.dropped = true → s.writeQueue = []) := by
  have h := Kept.of_reachable hs
  have hsingle := h.single
  rw [List.length_append] at hsingle
  refine ⟨by omega, h.written, h.accepted, h.messages, h.bytes, h.bytes_le, fun hdropped => ?_,
    h.dropped⟩
  obtain ⟨haccepted, hwritten, hfront, hwaits, -⟩ := h.opened hdropped
  refine ⟨haccepted, hwritten, hfront, fun hfinishing => ?_⟩
  have hover : s.overflowed = false := Bool.eq_false_iff.2 fun hover =>
    Bool.noConfusion (hfinishing.symm.trans (h.finishes (.inl hover)))
  have hfailed : s.failed = [] := by
    by_contra hfailed
    exact Bool.noConfusion (hfinishing.symm.trans (h.finishes (.inr hfailed)))
  rw [hfailed] at hwaits
  exact ⟨hover, hfailed, hwaits⟩

/-- Two frames, of which one has been written, and the other is. -/
def twoFrames : List Event :=
  [.deliver [1], .deliver [2, 3], .doWrite, .writeCompletes [1], .doWrite]

def secondInFlight : Session := (twoFrames.foldlM Session.step {}).get rfl

theorem writes_in_order_second : secondInFlight.inFlight = [[2, 3]] ∧
    secondInFlight.writeQueue.length ≤ maxQueuedMessages :=
  ⟨rfl, (writes_in_order
    (.of_foldlM (S := system) (s := {}) (fun _ _ _ hs => hs) (.init rfl) rfl)).2.2.2.1⟩

end Decibell.SessionWrites
