import Decibell.Lib.Assoc
import Decibell.Media.FrameAssembly

/-!
# The jitter buffer

Voice packets are held for a short time before they are decoded. The buffer has a cursor, the number
of the packet that is decoded next; numbers are of 16 bits and wrap. `push` takes a packet in: one
behind the cursor is dropped, but the third such in a row starts a new stream.
-/

namespace Decibell.Media

open Lib List

/-- The least depth before playback starts or resumes. -/
def jitterMinDepth : Nat := 2

/-- The largest depth that is aimed at. -/
def jitterMaxDepth : Nat := 15

/-- The cap: what is above it is discarded. -/
def jitterMax : Nat := 30

/-- So many losses in a row, and the buffer starts anew. -/
def plcResetThreshold : Nat := 10

/-- Most `Frame.expand` for each time that the buffer runs dry. -/
def maxExpandFrames : Nat := 5

/-- A pause, and no jitter. -/
def gapIgnore : Duration := fromMillis 400

/-- So many packets in a row behind the cursor are a new stream. -/
def rejoinResyncStreak : Nat := 3

def lateResolveWindow : UInt16 := 8
def underrunBoostDecay : Duration := fromSecs 15
def thrashFrames : Nat := 10

/-- The largest number of 32 bits. -/
def u32Max : Nat := 0xFFFFFFFF

def saturatingSucc (n : Nat) : Nat := min (n + 1) u32Max

/-- What a drain gives. -/
inductive Frame (α : Type) where
  | packet (data : α)
  | lost
  | expand
  | idle

/-- How a packet leaves the buffer. -/
inductive Fate where
  | decoded
  | late
  | duplicate
  | discarded
  | cleared
deriving DecidableEq

structure JitterEstimate (J : Type) where
  /-- The estimate after an interval between two packets. -/
  update : J → Duration → J
  /-- The frames that twice the jitter lasts. -/
  frames : J → Nat

/-- A number, with its payload and silence flag. -/
abbrev BufferedPacket (α : Type) := UInt16 × α × Bool

structure JitterBuffer (J α : Type) where
  packets : Assoc UInt16 (α × Bool) := .empty
  nextSeq : UInt16 := 0
  initialized : Bool := false
  ready : Bool := false
  consecutiveLosses : Nat := 0
  behindStreak : Nat := 0
  lastDequeuedSilence : Bool := false
  /-- The `Frame.expand` of the current underrun, if there is one. -/
  expanding : Nat := 0
  lateNoted : Bool := false
  lastAnyArrival : Option Instant := none
  framesSinceResume : Nat := u32Max
  lastArrival : Option Instant := none
  jitter : J
  underrunBoost : Nat := 0
  lastBoostDecay : Option Instant := none
  targetDepth : Nat := jitterMinDepth
  primeFrames : Nat := 0
  plcFrames : Nat := 0
  expandFrames : Nat := 0
  droppedFrames : Nat := 0
  decodedFrames : Nat := 0
  underruns : Nat := 0

namespace JitterBuffer

variable {J α : Type} (est : JitterEstimate J) (b : JitterBuffer J α)

def setPrimeFrames (frames : Nat) : JitterBuffer J α :=
  { b with primeFrames := min frames jitterMaxDepth }

/-! ## The target -/

def recomputeTarget : JitterBuffer J α :=
  let fromJitter := est.frames b.jitter + jitterMinDepth
  { b with targetDepth := max jitterMinDepth (min (fromJitter + b.underrunBoost) jitterMaxDepth) }

/-- Depth that was earned by underruns is given up slowly. -/
def decayBoost (now : Instant) : JitterBuffer J α :=
  match b.lastBoostDecay with
  | none => { b with lastBoostDecay := some now }
  | some t =>
    if 0 < b.underrunBoost ∧ underrunBoostDecay ≤ durationSince now t then
      recomputeTarget est
        { b with underrunBoost := b.underrunBoost - 1, lastBoostDecay := some now }
    else b

/-- Updates the estimate; silence, or what follows a pause, is not measured. -/
def onArrival (now : Instant) (silence gapBefore : Bool) : JitterBuffer J α :=
  let b := b.decayBoost est now
  match b.lastArrival with
  | none => { b with lastArrival := if !silence && !gapBefore then some now else none }
  | some prev =>
    let iat := durationSince now prev
    if gapIgnore ≤ iat then { b with lastArrival := none }
    else if !silence then
      { recomputeTarget est { b with jitter := est.update b.jitter iat } with
        lastArrival := if !gapBefore then some now else none }
    else { b with lastArrival := none }

/-- The underrun was a late packet: one more frame is held. -/
def noteLateResolve : JitterBuffer J α :=
  let b :=
    if b.underrunBoost < jitterMaxDepth then
      recomputeTarget est { b with underrunBoost := b.underrunBoost + 1 }
    else b
  { b with lastBoostDecay := b.lastArrival }

/-! ## A packet comes in -/

/-- The number is in the half of the numbers behind the cursor. -/
def isBehind (seq : UInt16) : Bool := 32768 ≤ seq - b.nextSeq

/-- A packet behind the cursor is dropped, or starts a new stream. -/
def pushBehind (p : BufferedPacket α) : JitterBuffer J α × List (Fate × BufferedPacket α) :=
  let streak := saturatingSucc b.behindStreak
  if rejoinResyncStreak ≤ streak then
    ({ b with
        packets := Assoc.insert .empty p.1 p.2
        nextSeq := p.1
        ready := false
        expanding := 0
        lateNoted := false
        behindStreak := 0 },
      b.packets.rows.map (.cleared, ·))
  else ({ b with behindStreak := streak }, [(.late, p)])

/-- After a pause, with nothing playing, what is held is stale. -/
def flushStale (p : BufferedPacket α) (gapBefore : Bool) :
    JitterBuffer J α × List (Fate × BufferedPacket α) :=
  if !p.2.2 && gapBefore && !b.ready && b.expanding = 0 && b.packets.size ≠ 0 then
    ({ b with
        droppedFrames := b.droppedFrames + b.packets.size
        packets := .empty
        nextSeq := p.1 },
      b.packets.rows.map (.discarded, ·))
  else (b, [])

/-- A packet near the cursor resolves an underrun: it was late. -/
def noteLate (p : BufferedPacket α) : JitterBuffer J α :=
  if 0 < b.expanding && !b.lateNoted && p.1 - b.nextSeq < lateResolveWindow then
    noteLateResolve est { b with lateNoted := true }
  else b

/-- Puts a packet in, in the place of one with the same number. -/
def insertPacket (p : BufferedPacket α) : JitterBuffer J α × List (Fate × BufferedPacket α) :=
  ({ b with packets := b.packets.insert p.1 p.2 },
    (b.packets.get? p.1).toList.map fun held => (.duplicate, p.1, held))

/-- Where playback starts: deeper for a cold start, and after a useless one. -/
def need : Nat :=
  let quickReUnderrun := decide (b.framesSinceResume < thrashFrames)
  if 0 < b.expanding && !quickReUnderrun then b.targetDepth else b.targetDepth + b.primeFrames

/-- Playback starts when enough is there. -/
def fill : JitterBuffer J α :=
  if !b.ready && b.need ≤ b.packets.size then { b with ready := true } else b

/-- The packet at the cursor, or else the next one that there is. -/
def foremost : Option (BufferedPacket α) :=
  match b.packets.get? b.nextSeq with
  | some held => some (b.nextSeq, held)
  | none => b.packets.firstBy fun seq => (seq - b.nextSeq).toNat

variable {b} in
theorem mem_of_foremost {p : BufferedPacket α} (h : b.foremost = some p) :
    p ∈ b.packets.rows := by
  rw [foremost] at h
  cases hget : b.packets.get? b.nextSeq with
  | some held =>
    rw [hget] at h
    obtain rfl := Option.some.inj h
    exact Assoc.get?_eq_some.1 hget
  | none =>
    rw [hget] at h
    exact Assoc.mem_of_firstBy h

variable {b} in
theorem size_remove_lt {p : BufferedPacket α} (h : p ∈ b.packets.rows) :
    (b.packets.remove p.1).size < b.packets.size :=
  Assoc.size_remove_lt (Option.isSome_iff_exists.2 ⟨p.2, Assoc.get?_eq_some.2 h⟩)

/-- Discards the foremost packets above the cap. -/
def forceDrain (b : JitterBuffer J α) : JitterBuffer J α × List (Fate × BufferedPacket α) :=
  if jitterMax < b.packets.size then
    match h : b.foremost with
    | none => (b, [])
    | some p =>
      have : (b.packets.remove p.1).size < b.packets.size := size_remove_lt (mem_of_foremost h)
      let rest := forceDrain
        { b with
          packets := b.packets.remove p.1
          nextSeq := p.1 + 1
          droppedFrames := b.droppedFrames + 1 }
      (rest.1, (.discarded, p) :: rest.2)
  else (b, [])
termination_by b.packets.size

/-- A packet that is not behind the cursor. -/
def pushAhead (p : BufferedPacket α) (gapBefore : Bool) :
    JitterBuffer J α × List (Fate × BufferedPacket α) :=
  let flushed := flushStale { b with behindStreak := 0 } p gapBefore
  let b := flushed.1
  if p.2.2 && !b.ready && b.packets.size = 0 && b.expanding = 0 then
    -- A keepalive: the sender is paused.
    ({ b with nextSeq := p.1 + 1, lastDequeuedSilence := true }, flushed.2 ++ [(.discarded, p)])
  else
    let inserted := (b.noteLate est p).insertPacket p
    let drained := inserted.1.fill.forceDrain
    (drained.1, flushed.2 ++ inserted.2 ++ drained.2)

/-- The first packet says where the stream starts. -/
def start (seq : UInt16) : JitterBuffer J α :=
  if !b.initialized then { b with nextSeq := seq, initialized := true } else b

/-- A packet arrives. -/
def push (p : BufferedPacket α) (now : Instant) :
    JitterBuffer J α × List (Fate × BufferedPacket α) :=
  let gapBefore := b.lastAnyArrival.any fun t => gapIgnore ≤ durationSince now t
  let b := (onArrival est { b with lastAnyArrival := some now } now p.2.2 gapBefore).start p.1
  if b.isBehind p.1 then b.pushBehind p else b.pushAhead est p gapBefore

/-! ## A frame goes out -/

/-- Starts anew. The jitter estimate is kept. -/
def reset : JitterBuffer J α × List (Fate × BufferedPacket α) :=
  ({ b with
      packets := .empty
      initialized := false
      ready := false
      consecutiveLosses := 0
      expanding := 0
      lateNoted := false
      lastDequeuedSilence := false },
    b.packets.rows.map (.cleared, ·))

/-- The next frame. -/
def drain : JitterBuffer J α × Frame α × List (Fate × BufferedPacket α) :=
  if !b.ready then
    if 0 < b.expanding then
      if b.expanding < maxExpandFrames then
        ({ b with expanding := b.expanding + 1, expandFrames := b.expandFrames + 1 }, .expand, [])
      else
        ({ b with
            expanding := 0
            lateNoted := false
            lastDequeuedSilence := true
            framesSinceResume := u32Max }, .idle, [])
    else (b, .idle, [])
  else if plcResetThreshold ≤ b.consecutiveLosses then (b.reset.1, .idle, b.reset.2)
  else
    match b.packets.get? b.nextSeq with
    | some held =>
      ({ b with
          packets := b.packets.remove b.nextSeq
          nextSeq := b.nextSeq + 1
          consecutiveLosses := 0
          framesSinceResume := if 0 < b.expanding then 0 else saturatingSucc b.framesSinceResume
          expanding := 0
          lateNoted := false
          decodedFrames := b.decodedFrames + 1
          lastDequeuedSilence := held.2 }, .packet held.1, [(.decoded, b.nextSeq, held)])
    | none =>
      if b.packets.size = 0 then
        if b.lastDequeuedSilence then
          ({ b with ready := false, framesSinceResume := u32Max }, .idle, [])
        else
          ({ b with
              ready := false
              underruns := b.underruns + 1
              expanding := 1
              expandFrames := b.expandFrames + 1 }, .expand, [])
      else
        ({ b with
            nextSeq := b.nextSeq + 1
            consecutiveLosses := b.consecutiveLosses + 1
            plcFrames := b.plcFrames + 1 }, .lost, [])

/-! ## Numbers that wrap -/

section Ahead

/-- How far a number is ahead of another. -/
def ahead (next seq : UInt16) : Nat := (seq - next).toNat

variable {next seq a c : UInt16}

theorem ahead_eq : ahead next seq = (65536 - next.toNat + seq.toNat) % 65536 :=
  UInt16.toNat_sub seq next

theorem ahead_self : ahead next next = 0 := by
  rw [ahead, UInt16.sub_self]
  rfl

theorem toNat_succ : (seq + 1).toNat = (seq.toNat + 1) % 65536 := UInt16.toNat_add seq 1

theorem ahead_pos (h : seq ≠ next) : 0 < ahead next seq := by
  have hne : seq.toNat ≠ next.toNat := fun hn => h (UInt16.toNat_inj.1 hn)
  have hs := seq.toNat_lt
  have hn := next.toNat_lt
  rw [ahead_eq]
  omega

theorem eq_of_ahead (h : ahead next a = ahead next c) : a = c := by
  have ha := a.toNat_lt
  have hc := c.toNat_lt
  have hn := next.toNat_lt
  rw [ahead_eq, ahead_eq] at h
  exact UInt16.toNat_inj.1 (by omega)

theorem ahead_succ (h : ahead next a < ahead next c) :
    ahead (a + 1) c = ahead next c - ahead next a - 1 := by
  have ha := a.toNat_lt
  have hc := c.toNat_lt
  have hn := next.toNat_lt
  rw [ahead_eq, ahead_eq] at h
  rw [ahead_eq, ahead_eq, ahead_eq, toNat_succ]
  omega

theorem ahead_to_succ (h : ahead next a < 65535) : ahead next (a + 1) = ahead next a + 1 := by
  have ha := a.toNat_lt
  have hn := next.toNat_lt
  rw [ahead_eq] at h
  rw [ahead_eq, ahead_eq, toNat_succ]
  omega

end Ahead

/-! ## What an operation does -/

/-- Every number is in the half of the numbers ahead of the cursor. -/
def InWindow : Prop := ∀ p ∈ b.packets.rows, ahead b.nextSeq p.1 < 32768

/-- The depth that is aimed at is within its bounds. -/
def TargetInBounds : Prop := jitterMinDepth ≤ b.targetDepth ∧ b.targetDepth ≤ jitterMaxDepth

/-- What holds of a buffer after each operation. -/
structure Sound : Prop where
  inWindow : b.InWindow
  capped : b.packets.size ≤ jitterMax
  target : b.TargetInBounds
  /-- Before a stream has started there is nothing. -/
  unstarted : b.initialized = false → b.packets = .empty
  limited : b.expanding ≤ maxExpandFrames
  /-- Playback that resumes after an underrun has something to play. -/
  resuming : b.ready = true → 0 < b.expanding → 0 < b.packets.size

/-- The next packet starts a stream: the first, or a streak's last behind the cursor. -/
def Restarts (p : BufferedPacket α) : Prop :=
  b.initialized = false ∨
    b.isBehind p.1 = true ∧ rejoinResyncStreak ≤ saturatingSucc b.behindStreak

instance (p : BufferedPacket α) : Decidable (b.Restarts p) := inferInstanceAs (Decidable (_ ∨ _))

section Adapts

variable {est b}

/-- The target and the estimate change, and nothing else. -/
structure Adapts (b b' : JitterBuffer J α) : Prop where
  packets : b'.packets = b.packets
  nextSeq : b'.nextSeq = b.nextSeq
  initialized : b'.initialized = b.initialized
  ready : b'.ready = b.ready
  behindStreak : b'.behindStreak = b.behindStreak
  expanding : b'.expanding = b.expanding
  target : b.TargetInBounds → b'.TargetInBounds

theorem Adapts.trans {b b' b'' : JitterBuffer J α} (h : Adapts b b') (h' : Adapts b' b'') :
    Adapts b b'' where
  packets := h'.packets.trans h.packets
  nextSeq := h'.nextSeq.trans h.nextSeq
  initialized := h'.initialized.trans h.initialized
  ready := h'.ready.trans h.ready
  behindStreak := h'.behindStreak.trans h.behindStreak
  expanding := h'.expanding.trans h.expanding
  target ht := h'.target (h.target ht)

theorem targetInBounds_recomputeTarget : (b.recomputeTarget est).TargetInBounds := by
  rw [TargetInBounds, recomputeTarget, jitterMinDepth, jitterMaxDepth]
  dsimp only
  omega

variable (est b) in
theorem adapts_decayBoost (now : Instant) : Adapts b (b.decayBoost est now) := by
  rw [decayBoost]
  cases b.lastBoostDecay with
  | none => exact ⟨rfl, rfl, rfl, rfl, rfl, rfl, id⟩
  | some t =>
    dsimp only
    split
    · exact ⟨rfl, rfl, rfl, rfl, rfl, rfl, fun _ => targetInBounds_recomputeTarget⟩
    · exact ⟨rfl, rfl, rfl, rfl, rfl, rfl, id⟩

theorem adapts_onArrival (now : Instant) (silence gapBefore : Bool) :
    Adapts b (b.onArrival est now silence gapBefore) := by
  refine (b.adapts_decayBoost est now).trans ?_
  rw [onArrival]
  dsimp only
  generalize b.decayBoost est now = b
  cases b.lastArrival with
  | none => exact ⟨rfl, rfl, rfl, rfl, rfl, rfl, id⟩
  | some prev =>
    dsimp only
    split
    · exact ⟨rfl, rfl, rfl, rfl, rfl, rfl, id⟩
    · split
      · exact ⟨rfl, rfl, rfl, rfl, rfl, rfl, fun _ => targetInBounds_recomputeTarget⟩
      · exact ⟨rfl, rfl, rfl, rfl, rfl, rfl, id⟩

variable (est b) in
theorem adapts_noteLate (p : BufferedPacket α) : Adapts b (b.noteLate est p) := by
  rw [noteLate]
  split
  · rw [noteLateResolve]
    dsimp only
    split
    · exact ⟨rfl, rfl, rfl, rfl, rfl, rfl, fun _ => targetInBounds_recomputeTarget⟩
    · exact ⟨rfl, rfl, rfl, rfl, rfl, rfl, id⟩
  · exact ⟨rfl, rfl, rfl, rfl, rfl, rfl, id⟩

end Adapts

section Push

variable {est b} {p : BufferedPacket α}

theorem Sound.adapts {b' : JitterBuffer J α} (h : b.Sound) (ha : Adapts b b') : b'.Sound where
  inWindow q hq := by
    rw [ha.packets] at hq
    rw [ha.nextSeq]
    exact h.inWindow q hq
  capped := by
    rw [ha.packets]
    exact h.capped
  target := ha.target h.target
  unstarted hu := by
    rw [ha.packets]
    exact h.unstarted (ha.initialized ▸ hu)
  limited := by
    rw [ha.expanding]
    exact h.limited
  resuming hready hpos := by
    rw [ha.packets]
    exact h.resuming (ha.ready ▸ hready) (ha.expanding ▸ hpos)

theorem size_eq_zero (h : b.packets.size = 0) : b.packets.rows = [] := length_eq_zero_iff.1 h

theorem inWindow_of_size (h : b.packets.size = 0) : b.InWindow := fun q hq => by
  rw [size_eq_zero h] at hq
  exact absurd hq not_mem_nil

theorem foremost_of_get? {held : α × Bool} (h : b.packets.get? b.nextSeq = some held) :
    b.foremost = some (b.nextSeq, held) := by rw [foremost, h]

theorem foremost_of_none (h : b.packets.get? b.nextSeq = none) :
    b.foremost = b.packets.firstBy (ahead b.nextSeq) := by
  rw [foremost, h]
  rfl

theorem exists_foremost (h : 0 < b.packets.size) : ∃ p, b.foremost = some p ∧
    ∀ q ∈ b.packets.rows, ahead b.nextSeq p.1 ≤ ahead b.nextSeq q.1 := by
  cases hget : b.packets.get? b.nextSeq with
  | some held =>
    refine ⟨_, foremost_of_get? hget, fun q _ => ?_⟩
    rw [ahead_self]
    exact Nat.zero_le _
  | none =>
    rw [foremost_of_none hget]
    exact Assoc.exists_firstBy (ahead b.nextSeq) h

theorem inWindow_remove (h : b.InWindow)
    (hleast : ∀ q ∈ b.packets.rows, ahead b.nextSeq p.1 ≤ ahead b.nextSeq q.1) :
    ∀ q ∈ (b.packets.remove p.1).rows, ahead (p.1 + 1) q.1 < 32768 := by
  intro q hq
  obtain ⟨hq, hne⟩ := mem_filter.1 hq
  have hne : q.1 ≠ p.1 := by
    rw [Bool.not_eq_true', decide_eq_false_iff_not] at hne
    exact hne
  have hlt : ahead b.nextSeq p.1 < ahead b.nextSeq q.1 :=
    lt_of_le_of_ne (hleast q hq) fun heq => hne (eq_of_ahead heq.symm)
  have hq := h q hq
  rw [ahead_succ hlt]
  omega

theorem forceDrain_of_le (h : b.packets.size ≤ jitterMax) : b.forceDrain = (b, []) := by
  rw [forceDrain, if_neg (Nat.not_lt.2 h)]

theorem forceDrain_of_eq (h : b.packets.size = jitterMax + 1) : ∃ p, p ∈ b.packets.rows ∧
    (∀ q ∈ b.packets.rows, ahead b.nextSeq p.1 ≤ ahead b.nextSeq q.1) ∧
    b.forceDrain =
      ({ b with
          packets := b.packets.remove p.1
          nextSeq := p.1 + 1
          droppedFrames := b.droppedFrames + 1 }, [(.discarded, p)]) := by
  obtain ⟨p, hforemost, hleast⟩ := b.exists_foremost (by omega)
  have hp := mem_of_foremost hforemost
  have hsize := size_remove_lt hp
  refine ⟨p, hp, hleast, ?_⟩
  rw [forceDrain, if_pos (by omega)]
  split
  · next hnone =>
    rw [hforemost] at hnone
    cases hnone
  · next p' hsome =>
    obtain rfl := Option.some.inj (hforemost.symm.trans hsome)
    rw [forceDrain_of_le (by dsimp only; omega)]

/-- What a packet that comes in does. -/
structure Pushes (b b' : JitterBuffer J α) (p : BufferedPacket α)
    (gone : List (Fate × BufferedPacket α)) : Prop where
  sound : b'.Sound
  accounted : (p :: b.packets.rows).Perm (gone.map (·.2) ++ b'.packets.rows)
  forward : ¬b.Restarts p → ahead b.nextSeq b'.nextSeq ≤ 32768
  /-- An underrun goes on only as it was. -/
  waits : b'.ready = false → 0 < b'.expanding → b.ready = false ∧ b'.expanding = b.expanding
  undecoded : ∀ g ∈ gone, g.1 ≠ .decoded

theorem snd_map_fate (fate : Fate) (rows : List (BufferedPacket α)) :
    (rows.map (fate, ·)).map (·.2) = rows := by
  rw [map_map]
  exact map_id rows

theorem undecoded_map {fate : Fate} (hfate : fate ≠ .decoded) {rows : List (BufferedPacket α)} :
    ∀ g ∈ rows.map (fate, ·), g.1 ≠ .decoded := by
  intro g hg
  obtain ⟨p, -, rfl⟩ := mem_map.1 hg
  exact hfate

theorem undecoded_append {l l' : List (Fate × BufferedPacket α)} (h : ∀ g ∈ l, g.1 ≠ .decoded)
    (h' : ∀ g ∈ l', g.1 ≠ .decoded) : ∀ g ∈ l ++ l', g.1 ≠ .decoded := fun g hg =>
  (mem_append.1 hg).elim (h g) (h' g)

theorem undecoded_singleton {fate : Fate} (hfate : fate ≠ .decoded) :
    ∀ g ∈ [(fate, p)], g.1 ≠ .decoded := fun _ hg => mem_singleton.1 hg ▸ hfate

theorem rows_insert_empty : (Assoc.insert .empty p.1 p.2 : Assoc UInt16 (α × Bool)).rows = [p] :=
  perm_singleton.1 (Assoc.rows_insert_perm .empty p.1 p.2)

theorem size_le_of_rows {l : List (BufferedPacket α)} (h : b.packets.rows = l)
    (hl : l.length ≤ jitterMax) : b.packets.size ≤ jitterMax := by
  rw [Assoc.size, h]
  exact hl

theorem pushes_pushBehind (h : b.Sound) (hstarted : b.initialized = true)
    (hbehind : b.isBehind p.1 = true) : Pushes b (b.pushBehind p).1 p (b.pushBehind p).2 := by
  rw [pushBehind]
  split
  · -- The third in a row: a new stream.
    next hstreak =>
    refine
      { sound :=
          { inWindow := fun q hq => ?_
            capped := size_le_of_rows rows_insert_empty (Nat.le_add_left 1 29)
            target := h.target
            unstarted := fun hu => absurd (hstarted.symm.trans hu) Bool.noConfusion
            limited := Nat.zero_le _
            resuming := fun hready => nomatch hready }
        accounted := ?_
        forward := fun hno => absurd (.inr ⟨hbehind, hstreak⟩) hno
        waits := fun _ hpos => absurd hpos (Nat.lt_irrefl 0)
        undecoded := undecoded_map (by decide) }
    · dsimp only at hq ⊢
      rw [rows_insert_empty] at hq
      rw [mem_singleton.1 hq, ahead_self]
      decide
    · rw [snd_map_fate, rows_insert_empty]
      exact perm_append_singleton p _ |>.symm
  · exact
      { sound := ⟨h.inWindow, h.capped, h.target, h.unstarted, h.limited, h.resuming⟩
        accounted := .refl _
        forward := fun _ => by rw [ahead_self]; exact Nat.zero_le _
        waits := fun hready hpos => ⟨hready, rfl⟩
        undecoded := undecoded_singleton (by decide) }

theorem accounted_insertPacket : (p :: b.packets.rows).Perm
    ((b.insertPacket p).2.map (·.2) ++ (b.insertPacket p).1.packets.rows) := by
  have hold : (b.insertPacket p).2.map (·.2) = (b.packets.get? p.1).toList.map (p.1, ·) := by
    rw [insertPacket, map_map]
    rfl
  rw [hold, insertPacket]
  calc p :: b.packets.rows
      |>.Perm (p :: ((b.packets.get? p.1).toList.map (p.1, ·) ++ (b.packets.remove p.1).rows)) :=
        (b.packets.rows_perm_remove p.1).cons p
    _ |>.Perm ((b.packets.get? p.1).toList.map (p.1, ·) ++ p :: (b.packets.remove p.1).rows) :=
        perm_middle.symm
    _ |>.Perm _ := (b.packets.rows_insert_perm p.1 p.2).symm.append_left _

theorem inWindow_insertPacket (h : b.InWindow) (hp : ahead b.nextSeq p.1 < 32768) :
    (b.insertPacket p).1.InWindow := by
  intro q hq
  have hrows := (b.packets.rows_insert_perm p.1 p.2).mem_iff.1 hq
  rcases mem_cons.1 hrows with rfl | hq
  · exact hp
  · exact h q (mem_filter.1 hq).1

theorem fill_cases : b.fill = b ∨ b.fill = { b with ready := true } := by
  rw [fill]
  split
  · exact .inr rfl
  · exact .inl rfl

/-- A packet is put in, and what is then above the cap discarded. -/
structure Settles (b b' : JitterBuffer J α) (p : BufferedPacket α)
    (gone : List (Fate × BufferedPacket α)) : Prop where
  sound : b'.Sound
  accounted : (p :: b.packets.rows).Perm (gone.map (·.2) ++ b'.packets.rows)
  /-- The cursor moves only in a full buffer. -/
  forward : b'.nextSeq = b.nextSeq ∨
    b.packets.size = jitterMax ∧ ahead b.nextSeq b'.nextSeq ≤ 32768
  waits : b'.ready = false → b.ready = false ∧ b'.expanding = b.expanding
  undecoded : ∀ g ∈ gone, g.1 ≠ .decoded

theorem settles_insert (h : b.Sound) (hstarted : b.initialized = true)
    (hp : ahead b.nextSeq p.1 < 32768) :
    Settles b (b.insertPacket p).1.fill.forceDrain.1 p
      ((b.insertPacket p).2 ++ (b.insertPacket p).1.fill.forceDrain.2) := by
  have haccounted := b.accounted_insertPacket (p := p)
  have hwindow := inWindow_insertPacket h.inWindow hp
  have hsize : (b.insertPacket p).1.packets.size ≤ b.packets.size + 1 :=
    b.packets.size_insert_le p.1 p.2
  have hready : (b.insertPacket p).1.fill.ready = false →
      b.ready = false ∧ (b.insertPacket p).1.fill.expanding = b.expanding := by
    rcases (b.insertPacket p).1.fill_cases with hfill | hfill
    · rw [hfill]
      exact fun hready => ⟨hready, rfl⟩
    · rw [hfill]
      exact fun hready => nomatch hready
  have hpos : 0 < (b.insertPacket p).1.packets.size := by
    have hlength := (b.packets.rows_insert_perm p.1 p.2).length_eq
    rw [length_cons] at hlength
    exact Nat.lt_of_lt_of_eq (Nat.succ_pos _) hlength.symm
  obtain ⟨hpackets, hnext, htarget, hinit, hexpanding⟩ :
      (b.insertPacket p).1.fill.packets = (b.insertPacket p).1.packets ∧
      (b.insertPacket p).1.fill.nextSeq = b.nextSeq ∧
      (b.insertPacket p).1.fill.targetDepth = b.targetDepth ∧
      (b.insertPacket p).1.fill.initialized = true ∧
      (b.insertPacket p).1.fill.expanding = b.expanding := by
    rcases (b.insertPacket p).1.fill_cases with hfill | hfill
    · rw [hfill]
      exact ⟨rfl, rfl, rfl, hstarted, rfl⟩
    · rw [hfill]
      exact ⟨rfl, rfl, rfl, hstarted, rfl⟩
  have hwindow' : (b.insertPacket p).1.fill.InWindow := by
    intro q hq
    rw [hpackets] at hq
    rw [hnext]
    exact hwindow q hq
  have hreplaced : ∀ g ∈ (b.insertPacket p).2, g.1 ≠ .decoded := by
    intro g hg
    obtain ⟨held, -, rfl⟩ := mem_map.1 hg
    exact Fate.noConfusion
  rw [← hpackets] at haccounted hsize hpos
  generalize (b.insertPacket p).1.fill = b' at *
  generalize (b.insertPacket p).2 = replaced at *
  have htarget' : b'.TargetInBounds := by
    rw [TargetInBounds, htarget]
    exact h.target
  have hlimited : b'.expanding ≤ maxExpandFrames := by
    rw [hexpanding]
    exact h.limited
  have hcapped := h.capped
  rcases Nat.lt_or_ge jitterMax b'.packets.size with hfull | hle
  · obtain ⟨q, hq, hleast, hdrain⟩ := b'.forceDrain_of_eq (by omega)
    have hgone := size_remove_lt hq
    rw [hdrain]
    refine
      { sound :=
          { inWindow := inWindow_remove hwindow' hleast
            capped := by dsimp only; omega
            target := htarget'
            unstarted := fun hu => absurd (hinit.symm.trans hu) Bool.noConfusion
            limited := hlimited
            resuming := fun _ _ => by
              have hleft := (Assoc.rows_perm_of_get? (Assoc.get?_eq_some.2 hq)).length_eq
              rw [length_cons] at hleft
              rw [jitterMax] at hfull
              rw [Assoc.size] at hfull ⊢
              dsimp only
              omega }
        accounted := ?_
        forward := .inr ⟨by omega, ?_⟩
        waits := hready
        undecoded := undecoded_append hreplaced (undecoded_singleton (by decide)) }
    · rw [map_append, append_assoc]
      refine haccounted.trans (List.Perm.append_left _ ?_)
      exact Assoc.rows_perm_of_get? (Assoc.get?_eq_some.2 hq)
    · have hq' := hwindow' q hq
      rw [hnext] at hq'
      rw [ahead_to_succ (by omega)]
      omega
  · rw [forceDrain_of_le hle, append_nil]
    exact
      { sound :=
          { inWindow := hwindow'
            capped := hle
            target := htarget'
            unstarted := fun hu => absurd (hinit.symm.trans hu) Bool.noConfusion
            limited := hlimited
            resuming := fun _ _ => hpos }
        accounted := haccounted
        forward := .inl hnext
        waits := hready
        undecoded := hreplaced }

theorem flushStale_cases (gapBefore : Bool) : b.flushStale p gapBefore = (b, []) ∨
    p.2.2 = false ∧ b.ready = false ∧ b.flushStale p gapBefore =
      ({ b with
          droppedFrames := b.droppedFrames + b.packets.size
          packets := .empty
          nextSeq := p.1 }, b.packets.rows.map (.discarded, ·)) := by
  rw [flushStale]
  split
  · next h =>
    simp only [Bool.and_eq_true, Bool.not_eq_true'] at h
    exact .inr ⟨h.1.1.1.1, h.1.1.2, rfl⟩
  · exact .inl rfl

theorem pushes_pushAhead (h : b.Sound) (hstarted : b.initialized = true)
    (hp : ahead b.nextSeq p.1 < 32768) (gapBefore : Bool) :
    Pushes b (b.pushAhead est p gapBefore).1 p (b.pushAhead est p gapBefore).2 := by
  have hsound : ({ b with behindStreak := 0 } : JitterBuffer J α).Sound :=
    ⟨h.inWindow, h.capped, h.target, h.unstarted, h.limited, h.resuming⟩
  rw [pushAhead]
  dsimp only
  rcases ({ b with behindStreak := 0 } : JitterBuffer J α).flushStale_cases (p := p) gapBefore with
    hflush | ⟨hvoice, hready, hflush⟩
  · rw [hflush]
    dsimp only
    split
    · -- A keepalive, while there is nothing.
      next hkeepalive =>
      simp only [Bool.and_eq_true, decide_eq_true_eq] at hkeepalive
      have hempty : b.packets.size = 0 := hkeepalive.1.2
      exact
        { sound :=
            { inWindow := inWindow_of_size hempty
              capped := h.capped
              target := h.target
              unstarted := h.unstarted
              limited := h.limited
              resuming := h.resuming }
          accounted := .refl _
          forward := fun _ => by
            dsimp only
            rw [ahead_to_succ (by omega)]
            omega
          waits := fun hready _ => ⟨hready, rfl⟩
          undecoded := undecoded_singleton (by decide) }
    · have ha := ({ b with behindStreak := 0 } : JitterBuffer J α).adapts_noteLate est p
      have hsettles := settles_insert (hsound.adapts ha) (ha.initialized.trans hstarted)
        (by rw [ha.nextSeq]; exact hp)
      exact
        { sound := hsettles.sound
          accounted := by
            have haccounted := hsettles.accounted
            rw [ha.packets] at haccounted
            exact haccounted
          forward := fun _ => by
            rcases hsettles.forward with hsame | ⟨-, hforward⟩
            · rw [hsame, ha.nextSeq, ahead_self]
              exact Nat.zero_le _
            · rw [ha.nextSeq] at hforward
              exact hforward
          waits := fun hready _ => by
            obtain ⟨hready, hexpanding⟩ := hsettles.waits hready
            exact ⟨ha.ready.symm.trans hready, hexpanding.trans ha.expanding⟩
          undecoded := hsettles.undecoded }
  · -- What was held is stale, and the packet is the only one.
    rw [hflush]
    dsimp only
    rw [if_neg (by rw [hvoice]; exact Bool.false_ne_true)]
    generalize hb' : ({ b with
      behindStreak := 0
      droppedFrames := b.droppedFrames + b.packets.size
      packets := .empty
      nextSeq := p.1 } : JitterBuffer J α) = b'
    obtain ⟨hempty, hnext, hready', hexpanding⟩ : b'.packets = .empty ∧ b'.nextSeq = p.1 ∧
        b'.ready = b.ready ∧ b'.expanding = b.expanding := by
      rw [← hb']
      exact ⟨rfl, rfl, rfl, rfl⟩
    have hsize : b'.packets.size = 0 := by rw [hempty]; rfl
    have hsound' : b'.Sound :=
      { inWindow := inWindow_of_size hsize
        capped := by rw [hsize]; exact Nat.zero_le _
        target := by rw [← hb']; exact h.target
        unstarted := fun _ => hempty
        limited := by rw [hexpanding]; exact h.limited
        resuming := fun hr => absurd ((hready'.symm.trans hr).symm.trans hready) Bool.noConfusion }
    have ha := b'.adapts_noteLate est p
    have hsettles := settles_insert (hsound'.adapts ha)
      (ha.initialized.trans (by rw [← hb']; exact hstarted))
      (by rw [ha.nextSeq, hnext, ahead_self]; decide)
    exact
      { sound := hsettles.sound
        accounted := by
          have haccounted := hsettles.accounted
          rw [ha.packets, hempty] at haccounted
          rw [append_assoc, map_append, snd_map_fate, append_assoc]
          exact (perm_append_singleton p _).symm.trans (haccounted.append_left _)
        forward := fun _ => by
          rcases hsettles.forward with hsame | ⟨hfull, -⟩
          · rw [hsame, ha.nextSeq, hnext]
            omega
          · rw [ha.packets, hsize] at hfull
            exact absurd hfull (by decide)
        waits := fun hwaits _ => ⟨hready, (hsettles.waits hwaits).2.trans
          (ha.expanding.trans hexpanding)⟩
        undecoded := by
          rw [append_assoc]
          exact undecoded_append (undecoded_map (by decide)) hsettles.undecoded }

theorem start_cases (seq : UInt16) :
    b.initialized = true ∧ b.start seq = b ∨
      b.initialized = false ∧ b.start seq = { b with nextSeq := seq, initialized := true } := by
  rw [start]
  cases hinit : b.initialized with
  | false => exact .inr ⟨rfl, if_pos rfl⟩
  | true => exact .inl ⟨rfl, if_neg Bool.false_ne_true⟩

theorem isBehind_eq_false : b.isBehind p.1 = false ↔ ahead b.nextSeq p.1 < 32768 := by
  rw [isBehind, decide_eq_false_iff_not, UInt16.le_iff_toNat_le]
  exact Nat.not_le

theorem Adapts.restarts_iff {b' : JitterBuffer J α} (h : Adapts b b') :
    b'.Restarts p ↔ b.Restarts p := by
  rw [Restarts, Restarts, isBehind, isBehind, h.initialized, h.nextSeq, h.behindStreak]

theorem Pushes.adapts {b' b'' : JitterBuffer J α} {gone : List (Fate × BufferedPacket α)}
    (h : Pushes b' b'' p gone) (ha : Adapts b b') : Pushes b b'' p gone where
  sound := h.sound
  accounted := by
    rw [← ha.packets]
    exact h.accounted
  forward hno := by
    rw [← ha.nextSeq]
    exact h.forward fun hre => hno (ha.restarts_iff.1 hre)
  waits hready hpos := by
    rw [← ha.ready, ← ha.expanding]
    exact h.waits hready hpos
  undecoded := h.undecoded

theorem pushes_started (h : b.Sound) (hstarted : b.initialized = true) (gapBefore : Bool) :
    let pushed := if b.isBehind p.1 then b.pushBehind p else b.pushAhead est p gapBefore
    Pushes b pushed.1 p pushed.2 := by
  dsimp only
  cases hbehind : b.isBehind p.1 with
  | true => exact pushes_pushBehind h hstarted hbehind
  | false => exact pushes_pushAhead h hstarted (isBehind_eq_false.1 hbehind) gapBefore

theorem push_spec (h : b.Sound) (now : Instant) :
    Pushes b (b.push est p now).1 p (b.push est p now).2 := by
  rw [push]
  generalize b.lastAnyArrival.any (fun t => gapIgnore ≤ durationSince now t) = gapBefore
  obtain ⟨b', hb'⟩ : ∃ b', onArrival est { b with lastAnyArrival := some now } now p.2.2
    gapBefore = b' := ⟨_, rfl⟩
  have hadapts : Adapts b b' := by
    rw [← hb']
    obtain ⟨hpackets, hnext, hinit, hready, hstreak, hexpanding, htarget⟩ :=
      @adapts_onArrival _ _ est { b with lastAnyArrival := some now } now p.2.2 gapBefore
    exact ⟨hpackets, hnext, hinit, hready, hstreak, hexpanding, htarget⟩
  have hsound := h.adapts hadapts
  rw [hb']
  rcases b'.start_cases p.1 with ⟨hstarted, hstart⟩ | ⟨hnew, hstart⟩
  · rw [hstart]
    exact (pushes_started hsound hstarted gapBefore).adapts hadapts
  · -- The cursor is put where the stream starts: nothing is there yet.
    have hempty := hsound.unstarted hnew
    have hsound' : ({ b' with nextSeq := p.1, initialized := true } : JitterBuffer J α).Sound :=
      { inWindow := inWindow_of_size (by dsimp only; rw [hempty]; rfl)
        capped := hsound.capped
        target := hsound.target
        unstarted := fun hu => nomatch hu
        limited := hsound.limited
        resuming := hsound.resuming }
    obtain ⟨hs, haccounted, -, hwaits, hundecoded⟩ :=
      @pushes_started _ _ est _ p hsound' rfl gapBefore
    rw [hstart]
    refine Pushes.adapts ?_ hadapts
    exact
      { sound := hs
        accounted := haccounted
        forward := fun hno => absurd (.inl hnew) hno
        waits := hwaits
        undecoded := hundecoded }

end Push

section Drain

variable {b}

/-- What a drain, or a reset, does. -/
structure Drains (b b' : JitterBuffer J α) (frame : Frame α)
    (gone : List (Fate × BufferedPacket α)) : Prop where
  sound : b'.Sound
  accounted : b.packets.rows.Perm (gone.map (·.2) ++ b'.packets.rows)
  forward : ahead b.nextSeq b'.nextSeq ≤ 1
  /-- A packet handed out is the one at the cursor, which leaves it. -/
  packet : ∀ data, frame = .packet data → b'.nextSeq = b.nextSeq + 1 ∧
    ∃ silence, gone = [(.decoded, b.nextSeq, data, silence)]
  others : (∀ data, frame ≠ .packet data) → ∀ g ∈ gone, g.1 ≠ .decoded
  /-- An underrun begins with the first of its frames. -/
  expand : frame = .expand → b'.ready = false ∧
    if b.ready then b'.expanding = 1 else 0 < b.expanding ∧ b'.expanding = b.expanding + 1
  waits : frame ≠ .expand → b'.ready = false → b'.expanding = 0

theorem reset_spec (h : b.Sound) : Drains b b.reset.1 .idle b.reset.2 where
  sound :=
    { inWindow := inWindow_of_size rfl
      capped := Nat.zero_le _
      target := h.target
      unstarted := fun _ => rfl
      limited := Nat.zero_le _
      resuming := fun hready => nomatch hready }
  accounted := by
    rw [reset, snd_map_fate]
    exact .of_eq (append_nil _).symm
  forward := by
    rw [reset, ahead_self]
    exact Nat.zero_le _
  packet _ hdata := nomatch hdata
  others _ := undecoded_map (by decide)
  expand hexpand := nomatch hexpand
  waits _ _ := rfl

theorem drains_packet (h : b.Sound) (hready : b.ready = true) {held : α × Bool}
    (hget : b.packets.get? b.nextSeq = some held) {b' : JitterBuffer J α}
    (hpackets : b'.packets = b.packets.remove b.nextSeq) (hnext : b'.nextSeq = b.nextSeq + 1)
    (hexpanding : b'.expanding = 0) (hready' : b'.ready = b.ready)
    (htarget : b'.targetDepth = b.targetDepth) (hinit : b'.initialized = b.initialized) :
    Drains b b' (.packet held.1) [(.decoded, b.nextSeq, held)] where
  sound :=
    { inWindow := by
        intro q hq
        rw [hpackets] at hq
        rw [hnext]
        refine inWindow_remove (p := (b.nextSeq, held)) h.inWindow (fun q _ => ?_) q hq
        rw [ahead_self]
        exact Nat.zero_le _
      capped := by
        rw [hpackets]
        exact Assoc.size_remove_le.trans h.capped
      target := by
        rw [TargetInBounds, htarget]
        exact h.target
      unstarted := fun hu => by
        rw [h.unstarted (hinit ▸ hu)] at hget
        cases hget
      limited := by rw [hexpanding]; exact Nat.zero_le _
      resuming := fun _ hpos => by
        rw [hexpanding] at hpos
        exact absurd hpos (Nat.lt_irrefl 0) }
  accounted := by
    rw [hpackets]
    exact Assoc.rows_perm_of_get? hget
  forward := by
    rw [hnext, ahead_to_succ (by rw [ahead_self]; decide), ahead_self]
  packet _ hdata := by
    obtain rfl := Frame.packet.inj hdata
    exact ⟨hnext, held.2, rfl⟩
  others hno := absurd rfl (hno held.1)
  expand hexpand := nomatch hexpand
  waits _ hnot := absurd (hready.symm.trans (hready'.symm.trans hnot)) Bool.noConfusion

/-- Without a packet at the cursor none goes, nor is lost if any is behind. -/
theorem drains_lost (h : b.Sound) (hready : b.ready = true)
    (hget : b.packets.get? b.nextSeq = none) (hpos : 0 < b.packets.size)
    {b' : JitterBuffer J α} (hpackets : b'.packets = b.packets)
    (hnext : b'.nextSeq = b.nextSeq + 1) (hexpanding : b'.expanding = b.expanding)
    (hready' : b'.ready = b.ready) (htarget : b'.targetDepth = b.targetDepth)
    (hinit : b'.initialized = b.initialized) : Drains b b' .lost [] where
  sound :=
    { inWindow := by
        intro q hq
        rw [hpackets] at hq
        have hq' := h.inWindow q hq
        have hlt : ahead b.nextSeq b.nextSeq < ahead b.nextSeq q.1 := by
          rw [ahead_self]
          refine ahead_pos fun heq => ?_
          rw [← heq, Assoc.get?_eq_some.2 hq] at hget
          cases hget
        rw [hnext, ahead_succ hlt]
        omega
      capped := by rw [hpackets]; exact h.capped
      target := by
        rw [TargetInBounds, htarget]
        exact h.target
      unstarted := fun hu => by
        rw [h.unstarted (hinit ▸ hu)] at hpos
        exact absurd hpos (Nat.lt_irrefl 0)
      limited := by rw [hexpanding]; exact h.limited
      resuming := fun _ _ => by rw [hpackets]; exact hpos }
  accounted := by
    rw [hpackets]
    exact .refl _
  forward := by
    rw [hnext, ahead_to_succ (by rw [ahead_self]; decide), ahead_self]
  packet _ hdata := nomatch hdata
  others _ _ hg := absurd hg not_mem_nil
  expand hexpand := nomatch hexpand
  waits _ hnot := absurd (hready.symm.trans (hready'.symm.trans hnot)) Bool.noConfusion

theorem drains_still (h : b.Sound) {b' : JitterBuffer J α} {frame : Frame α}
    (hpackets : b'.packets = b.packets) (hnext : b'.nextSeq = b.nextSeq)
    (htarget : b'.targetDepth = b.targetDepth) (hinit : b'.initialized = b.initialized)
    (hready : b'.ready = false) (hlimited : b'.expanding ≤ maxExpandFrames)
    (hpacket : ∀ data, frame ≠ .packet data)
    (hexpand : frame = .expand → if b.ready then b'.expanding = 1 else
      0 < b.expanding ∧ b'.expanding = b.expanding + 1)
    (hwaits : frame ≠ .expand → b'.expanding = 0) : Drains b b' frame [] where
  sound :=
    { inWindow := by
        intro q hq
        rw [hpackets] at hq
        rw [hnext]
        exact h.inWindow q hq
      capped := by rw [hpackets]; exact h.capped
      target := by
        rw [TargetInBounds, htarget]
        exact h.target
      unstarted := fun hu => by rw [hpackets]; exact h.unstarted (hinit ▸ hu)
      limited := hlimited
      resuming := fun hr => absurd (hready.symm.trans hr) Bool.noConfusion }
  accounted := by
    rw [hpackets]
    exact .refl _
  forward := by
    rw [hnext, ahead_self]
    exact Nat.zero_le _
  packet data hdata := absurd hdata (hpacket data)
  others _ _ hg := absurd hg not_mem_nil
  expand hframe := ⟨hready, hexpand hframe⟩
  waits hframe _ := hwaits hframe

theorem drain_spec (h : b.Sound) : Drains b b.drain.1 b.drain.2.1 b.drain.2.2 := by
  rw [drain]
  by_cases hready : b.ready = true
  · rw [if_neg (by rw [hready]; exact Bool.false_ne_true)]
    split
    · exact reset_spec h
    · cases hget : b.packets.get? b.nextSeq with
      | some held => exact drains_packet h hready hget rfl rfl rfl rfl rfl rfl
      | none =>
        dsimp only
        split
        · next hempty =>
          split
          · -- A pause. No underrun is left to go on.
            refine drains_still h rfl rfl rfl rfl rfl h.limited (fun _ hf => by cases hf)
              (fun hf => by cases hf) fun _ => ?_
            refine Nat.eq_zero_of_not_pos fun hpos => ?_
            have hsome := h.resuming hready hpos
            omega
          · exact drains_still h rfl rfl rfl rfl rfl (show 1 ≤ maxExpandFrames by decide)
              (fun _ hf => by cases hf) (fun _ => by rw [if_pos hready]) fun hne => absurd rfl hne
        · next hsome =>
          exact drains_lost h hready hget (Nat.pos_of_ne_zero hsome) rfl rfl rfl rfl rfl rfl
  · have hwaits : b.ready = false := Bool.eq_false_iff.2 hready
    rw [if_pos (by rw [hwaits]; rfl)]
    split
    · next hpos =>
      split
      · -- The underrun goes on.
        next hfew =>
        exact drains_still h rfl rfl rfl rfl hwaits (Nat.succ_le_of_lt hfew)
          (fun _ hf => by cases hf) (fun _ => by rw [if_neg hready]; exact ⟨hpos, rfl⟩)
          fun hne => absurd rfl hne
      · exact drains_still h rfl rfl rfl rfl hwaits (Nat.zero_le _) (fun _ hf => by cases hf)
          (fun hf => by cases hf) fun _ => rfl
    · next hnone =>
      exact drains_still h rfl rfl rfl rfl hwaits h.limited (fun _ hf => by cases hf)
        (fun hf => by cases hf) fun _ => Nat.eq_zero_of_not_pos hnone

end Drain

end JitterBuffer

end Decibell.Media
