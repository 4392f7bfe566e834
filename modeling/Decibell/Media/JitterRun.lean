import Decibell.Lib.Run
import Decibell.Media.JitterBuffer

/-!
# Runs of the jitter buffer

A run is any sequence of packets, with any numbers and at any times, and of drains, of resets and of
changes to the priming. The cursor is followed as a number that does not wrap: it moves by as much
as the number of the buffer does, and is put down anew where a stream starts.
-/

namespace Decibell.Media

open Lib JitterBuffer List

variable {J α : Type}

inductive JitterCall (α : Type) where
  | push (p : BufferedPacket α) (now : Instant)
  | drain
  | reset
  | setPrimeFrames (frames : Nat)

/-- A buffer, and what happened so far, the newest first. -/
structure JitterRun (J α : Type) where
  buf : JitterBuffer J α
  /-- The cursor, as a number that does not wrap. -/
  cursor : Nat := 0
  pushed : List (BufferedPacket α) := []
  gone : List (Fate × BufferedPacket α) := []
  /-- Where the cursor was for each packet handed out in the stream. -/
  handed : List (Nat × UInt16) := []
  frames : List (Frame α) := []
  /-- How many `Frame.expand` there were in each underrun. -/
  expands : List Nat := []

/-- The payload of a frame. -/
def Frame.data? : Frame α → Option α
  | .packet data => some data
  | _ => none

/-- One more `Frame.expand`: an underrun's first, or one of the last. -/
def noteExpand (first : Bool) : List Nat → List Nat
  | n :: l => if first then 1 :: n :: l else (n + 1) :: l
  | [] => [1]

namespace JitterRun

variable (est : JitterEstimate J) (s : JitterRun J α)

/-- The cursor moves as the buffer's number does. -/
def movedTo (b : JitterBuffer J α) : Nat := s.cursor + ahead s.buf.nextSeq b.nextSeq

def pushStep (p : BufferedPacket α) (now : Instant) : JitterRun J α :=
  let pushed := s.buf.push est p now
  { s with
    buf := pushed.1
    cursor := if s.buf.Restarts p then pushed.1.nextSeq.toNat else s.movedTo pushed.1
    pushed := p :: s.pushed
    gone := pushed.2 ++ s.gone
    handed := if s.buf.Restarts p then [] else s.handed }

/-- A drain, or a reset, which hands nothing out. -/
def drainStep (drained : JitterBuffer J α × Frame α × List (Fate × BufferedPacket α)) :
    JitterRun J α :=
  { s with
    buf := drained.1
    cursor := s.movedTo drained.1
    gone := drained.2.2 ++ s.gone
    handed :=
      match drained.2.1 with
      | .packet _ => (s.cursor, s.buf.nextSeq) :: s.handed
      | _ => s.handed
    frames := drained.2.1 :: s.frames
    expands :=
      match drained.2.1 with
      | .expand => noteExpand s.buf.ready s.expands
      | _ => s.expands }

def step : JitterCall α → JitterRun J α
  | .push p now => s.pushStep est p now
  | .drain => s.drainStep s.buf.drain
  | .reset => s.drainStep (s.buf.reset.1, .idle, s.buf.reset.2)
  | .setPrimeFrames frames => { s with buf := s.buf.setPrimeFrames frames }

/-- What holds in every run. -/
structure Kept : Prop where
  sound : s.buf.Sound
  /-- The cursor of the buffer is that of the run, in 16 bits. -/
  cursor : s.cursor % 65536 = s.buf.nextSeq.toNat
  /-- What is handed out goes strictly up, -/
  advances : s.handed.Pairwise fun later earlier => earlier.1 < later.1
  /-- to below the cursor, -/
  behind : ∀ h ∈ s.handed, h.1 < s.cursor
  /-- and has the numbers of the cursor. -/
  numbers : ∀ h ∈ s.handed, h.1 % 65536 = h.2.toNat
  /-- There is a limit to the expands of an underrun. -/
  expands : ∀ n ∈ s.expands, n ≤ maxExpandFrames
  expanding : s.buf.ready = false → 0 < s.buf.expanding →
    s.expands.head? = some s.buf.expanding
  /-- Every packet has left once, in one way, or is there. -/
  accounted : s.pushed.Perm (s.gone.map (·.2) ++ s.buf.packets.rows)
  /-- The decoded ones are those that were handed out. -/
  decoded : (s.gone.filter fun g => g.1 = .decoded).map (·.2.2.1) = s.frames.filterMap Frame.data?

end JitterRun

/-- Any calls, on a buffer that is new. -/
def jitterSystem (est : JitterEstimate J) : System (JitterRun J α) (JitterCall α) where
  init s := ∃ jitter, s = { buf := { jitter } }
  step s call s' := s' = s.step est call

namespace JitterRun

section Steps

variable {est : JitterEstimate J} {s : JitterRun J α}

theorem cursor_movedTo (h : s.cursor % 65536 = s.buf.nextSeq.toNat) (b : JitterBuffer J α) :
    s.movedTo b % 65536 = b.nextSeq.toNat := by
  have hnext := s.buf.nextSeq.toNat_lt
  have hnext' := b.nextSeq.toNat_lt
  rw [movedTo, ahead_eq]
  omega

theorem kept_start (jitter : J) : Kept ({ buf := { jitter } } : JitterRun J α) where
  sound :=
    { inWindow := inWindow_of_size rfl
      capped := Nat.zero_le _
      target := ⟨Nat.le_refl _, show jitterMinDepth ≤ jitterMaxDepth by decide⟩
      unstarted := fun _ => rfl
      limited := Nat.zero_le _
      resuming := fun hready => nomatch hready }
  cursor := rfl
  advances := .nil
  behind _ hh := absurd hh not_mem_nil
  numbers _ hh := absurd hh not_mem_nil
  expands _ hn := absurd hn not_mem_nil
  expanding _ hpos := absurd hpos (Nat.lt_irrefl 0)
  accounted := .refl _
  decoded := rfl

theorem kept_push (h : s.Kept) (p : BufferedPacket α) (now : Instant) :
    (s.pushStep est p now).Kept := by
  have hpush := @push_spec J α est s.buf p h.sound now
  have hdecoded : ((s.buf.push est p now).2 ++ s.gone).filter (fun g => g.1 = .decoded) =
      s.gone.filter fun g => g.1 = .decoded := by
    rw [filter_append, filter_eq_nil_iff.2 fun g hg => by
      rw [decide_eq_true_eq]
      exact hpush.undecoded g hg, nil_append]
  have haccounted : (p :: s.pushed).Perm
      (((s.buf.push est p now).2 ++ s.gone).map (·.2) ++
        (s.buf.push est p now).1.packets.rows) := by
    rw [map_append, append_assoc]
    calc p :: s.pushed
        |>.Perm (p :: (s.gone.map (·.2) ++ s.buf.packets.rows)) := h.accounted.cons p
      _ |>.Perm (s.gone.map (·.2) ++ p :: s.buf.packets.rows) := perm_middle.symm
      _ |>.Perm (s.gone.map (·.2) ++ ((s.buf.push est p now).2.map (·.2) ++
          (s.buf.push est p now).1.packets.rows)) := hpush.accounted.append_left _
      _ |>.Perm _ := perm_append_comm_assoc _ _ _
  rw [pushStep]
  by_cases hre : s.buf.Restarts p
  · -- The stream starts, and nothing of it has been handed out.
    rw [if_pos hre, if_pos hre]
    exact
      { sound := hpush.sound
        cursor := Nat.mod_eq_of_lt (s.buf.push est p now).1.nextSeq.toNat_lt
        advances := .nil
        behind := fun _ hh => absurd hh not_mem_nil
        numbers := fun _ hh => absurd hh not_mem_nil
        expands := h.expands
        expanding := fun hready hpos => by
          obtain ⟨hready', hsame⟩ := hpush.waits hready hpos
          exact hsame ▸ h.expanding hready' (hsame ▸ hpos)
        accounted := haccounted
        decoded := hdecoded ▸ h.decoded }
  · rw [if_neg hre, if_neg hre]
    exact
      { sound := hpush.sound
        cursor := cursor_movedTo h.cursor _
        advances := h.advances
        behind := fun x hx => Nat.lt_of_lt_of_le (h.behind x hx) (Nat.le_add_right _ _)
        numbers := h.numbers
        expands := h.expands
        expanding := fun hready hpos => by
          obtain ⟨hready', hsame⟩ := hpush.waits hready hpos
          exact hsame ▸ h.expanding hready' (hsame ▸ hpos)
        accounted := haccounted
        decoded := hdecoded ▸ h.decoded }

section Drain

variable {b : JitterBuffer J α} {frame : Frame α} {gone : List (Fate × BufferedPacket α)}

theorem accounted_drain (h : s.Kept) (hdrain : Drains s.buf b frame gone) :
    s.pushed.Perm ((gone ++ s.gone).map (·.2) ++ b.packets.rows) := by
  rw [map_append, append_assoc]
  calc s.pushed
      |>.Perm (s.gone.map (·.2) ++ s.buf.packets.rows) := h.accounted
    _ |>.Perm (s.gone.map (·.2) ++ (gone.map (·.2) ++ b.packets.rows)) :=
        hdrain.accounted.append_left _
    _ |>.Perm _ := perm_append_comm_assoc _ _ _

theorem behind_drain (h : s.Kept) : ∀ x ∈ s.handed, x.1 < s.movedTo b := fun x hx =>
  Nat.lt_of_lt_of_le (h.behind x hx) (Nat.le_add_right _ _)

theorem decoded_drain (h : s.Kept) (hdrain : Drains s.buf b frame gone)
    (hno : ∀ data, frame ≠ .packet data) :
    ((gone ++ s.gone).filter fun g => g.1 = .decoded).map (·.2.2.1) =
      (frame :: s.frames).filterMap Frame.data? := by
  have hdata : frame.data? = none := by
    cases frame with
    | packet data => exact absurd rfl (hno data)
    | lost => rfl
    | expand => rfl
    | idle => rfl
  have hnone : gone.filter (fun g => g.1 = .decoded) = [] := by
    refine filter_eq_nil_iff.2 fun g hg => ?_
    rw [decide_eq_true_eq]
    exact hdrain.others hno g hg
  rw [filter_append, hnone, nil_append, filterMap_cons_none hdata]
  exact h.decoded

theorem kept_packet (h : s.Kept) {data : α} (hdrain : Drains s.buf b (.packet data) gone) :
    (s.drainStep (b, .packet data, gone)).Kept := by
  obtain ⟨hnext, silence, rfl⟩ := hdrain.packet data rfl
  have hmoved : s.movedTo b = s.cursor + 1 := by
    rw [movedTo, hnext, ahead_to_succ (by rw [ahead_self]; decide), ahead_self]
  exact
    { sound := hdrain.sound
      cursor := cursor_movedTo h.cursor _
      advances := pairwise_cons.2 ⟨h.behind, h.advances⟩
      behind := forall_mem_cons.2
        ⟨Nat.lt_of_lt_of_eq (Nat.lt_succ_self _) hmoved.symm, behind_drain h⟩
      numbers := forall_mem_cons.2 ⟨h.cursor, h.numbers⟩
      expands := h.expands
      expanding := fun hready hpos => absurd (hdrain.waits nofun hready) (Nat.ne_of_gt hpos)
      accounted := accounted_drain h hdrain
      decoded := congrArg (data :: ·) h.decoded }

theorem kept_expand (h : s.Kept) (hdrain : Drains s.buf b .expand gone) :
    (s.drainStep (b, .expand, gone)).Kept := by
  obtain ⟨-, hcount⟩ := hdrain.expand rfl
  have hlimited := hdrain.sound.limited
  have hexpands : (∀ n ∈ noteExpand s.buf.ready s.expands, n ≤ maxExpandFrames) ∧
      (noteExpand s.buf.ready s.expands).head? = some b.expanding := by
    cases hready : s.buf.ready with
    | true =>
      -- A new underrun.
      rw [if_pos hready] at hcount
      have hnew : noteExpand true s.expands = 1 :: s.expands := by cases s.expands <;> rfl
      rw [hnew, hcount]
      exact ⟨forall_mem_cons.2 ⟨by decide, h.expands⟩, rfl⟩
    | false =>
      rw [if_neg (by rw [hready]; exact Bool.false_ne_true)] at hcount
      have hhead := h.expanding hready hcount.1
      have hold := h.expands
      cases hlist : s.expands with
      | nil =>
        rw [hlist] at hhead
        cases hhead
      | cons n l =>
        rw [hlist] at hhead hold
        obtain rfl := Option.some.inj hhead
        rw [hcount.2] at hlimited
        refine ⟨forall_mem_cons.2 ⟨hlimited, (forall_mem_cons.1 hold).2⟩, ?_⟩
        rw [hcount.2]
        rfl
  exact
    { sound := hdrain.sound
      cursor := cursor_movedTo h.cursor _
      advances := h.advances
      behind := behind_drain h
      numbers := h.numbers
      expands := hexpands.1
      expanding := fun _ _ => hexpands.2
      accounted := accounted_drain h hdrain
      decoded := decoded_drain h hdrain nofun }

theorem kept_quiet (h : s.Kept) (hdrain : Drains s.buf b frame gone)
    (hframe : frame = .lost ∨ frame = .idle) : (s.drainStep (b, frame, gone)).Kept := by
  obtain ⟨hhanded, hexpands, hpacket, hexpand⟩ :
      (s.drainStep (b, frame, gone)).handed = s.handed ∧
      (s.drainStep (b, frame, gone)).expands = s.expands ∧
      (∀ data, frame ≠ .packet data) ∧ frame ≠ .expand := by
    rcases hframe with rfl | rfl
    · exact ⟨rfl, rfl, fun _ => nofun, nofun⟩
    · exact ⟨rfl, rfl, fun _ => nofun, nofun⟩
  exact
    { sound := hdrain.sound
      cursor := cursor_movedTo h.cursor _
      advances := by rw [hhanded]; exact h.advances
      behind := by rw [hhanded]; exact behind_drain h
      numbers := by rw [hhanded]; exact h.numbers
      expands := by rw [hexpands]; exact h.expands
      expanding := fun hready hpos => absurd (hdrain.waits hexpand hready) (Nat.ne_of_gt hpos)
      accounted := accounted_drain h hdrain
      decoded := decoded_drain h hdrain hpacket }

theorem kept_drain (h : s.Kept) (hdrain : Drains s.buf b frame gone) :
    (s.drainStep (b, frame, gone)).Kept := by
  cases frame with
  | packet data => exact kept_packet h hdrain
  | expand => exact kept_expand h hdrain
  | lost => exact kept_quiet h hdrain (.inl rfl)
  | idle => exact kept_quiet h hdrain (.inr rfl)

end Drain

theorem kept_step (h : s.Kept) (call : JitterCall α) : (s.step est call).Kept := by
  cases call with
  | push p now => exact kept_push h p now
  | drain => exact kept_drain h (drain_spec h.sound)
  | reset => exact kept_drain h (reset_spec h.sound)
  | setPrimeFrames frames =>
    obtain ⟨⟨hwindow, hcapped, htarget, hunstarted, hlimited, hresuming⟩, hcursor, hadvances,
      hbehind, hnumbers, hexpands, hexpanding, haccounted, hdecoded⟩ := h
    exact ⟨⟨hwindow, hcapped, htarget, hunstarted, hlimited, hresuming⟩, hcursor, hadvances,
      hbehind, hnumbers, hexpands, hexpanding, haccounted, hdecoded⟩

/-- A call moves the cursor forward by half the numbers at most, unless it starts a stream. -/
theorem forward_step (h : s.Kept) {call : JitterCall α}
    (hno : ∀ p now, call = .push p now → ¬s.buf.Restarts p) :
    s.cursor ≤ (s.step est call).cursor ∧ (s.step est call).cursor ≤ s.cursor + 32768 := by
  have hmoved {b : JitterBuffer J α} (hahead : ahead s.buf.nextSeq b.nextSeq ≤ 32768) :
      s.cursor ≤ s.movedTo b ∧ s.movedTo b ≤ s.cursor + 32768 :=
    ⟨Nat.le_add_right _ _, Nat.add_le_add_left hahead _⟩
  cases call with
  | push p now =>
    have hre := hno p now rfl
    rw [step, pushStep]
    dsimp only
    rw [if_neg hre]
    exact hmoved ((push_spec h.sound now).forward hre)
  | drain => exact hmoved ((drain_spec h.sound).forward.trans (by decide))
  | reset => exact hmoved ((reset_spec h.sound).forward.trans (by decide))
  | setPrimeFrames frames => exact ⟨Nat.le_refl _, Nat.le_add_right _ _⟩

end Steps

end JitterRun

/-- The buffer never rewinds, repeats or hoards, whatever is pushed and drained. -/
theorem jitter_kept {est : JitterEstimate J} {s : JitterRun J α}
    (hs : (jitterSystem est).Reachable s) : s.Kept ∧
      ∀ call : JitterCall α, (∀ p now, call = .push p now → ¬s.buf.Restarts p) →
        s.cursor ≤ (s.step est call).cursor ∧ (s.step est call).cursor ≤ s.cursor + 32768 := by
  have hkept : s.Kept := by
    refine System.reachable_invariant ?_ ?_ hs
    · rintro s ⟨jitter, rfl⟩
      exact JitterRun.kept_start jitter
    · rintro s call s' h rfl
      exact JitterRun.kept_step h call
  exact ⟨hkept, fun call hno => JitterRun.forward_step hkept hno⟩

/-- An estimate that is never more than nothing. -/
def noJitter : JitterEstimate Nat where
  update _ _ := 0
  frames _ := 0

/-- Four packets, out of order over the wrap, one twice, with drains. -/
def wrappedRun : JitterRun Nat Nat :=
  [.push (65534, 1, false) 0, .push (0, 3, false) 20, .drain, .push (65535, 2, false) 30,
    .push (0, 3, false) 40, .drain, .drain, .drain].foldl (JitterRun.step noJitter)
    { buf := { jitter := 0 } }

theorem reachable_wrappedRun : (jitterSystem noJitter).Reachable wrappedRun :=
  System.Reachable.foldl (fun _ _ => rfl) _ (.init ⟨0, rfl⟩)

theorem jitter_kept_wrapped : wrappedRun.Kept ∧
    wrappedRun.handed = [(65536, 0), (65535, 65535), (65534, 65534)] :=
  ⟨(jitter_kept reachable_wrappedRun).1, by decide +kernel⟩

end Decibell.Media
