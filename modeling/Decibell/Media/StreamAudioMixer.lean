import Decibell.Lib.Assoc
import Decibell.Lib.Run
import Mathlib.Algebra.GroupWithZero.Nat
import Mathlib.Algebra.Order.Ring.Rat

/-!
# The stream audio mixer

The mixer has a ring of samples for each source and, tick by tick, takes out of the rings the frames
that the clock says are due and adds them up. A frame is a sample for the left and one for the
right; samples are rationals.
-/

namespace Decibell.AudioMixer

open Lib List

structure MixerConfig where
  sampleRate : UInt32
  /-- The most frames that a ring may have. -/
  maxRingFrames : Nat
  /-- The frames a source must have before it contributes. -/
  primeFrames : Nat

/-- A cap of 200 ms, and 20 ms before a source starts. -/
def MixerConfig.forRate (sampleRate : UInt32) : MixerConfig :=
  let perMs := sampleRate.toNat / 1000
  ⟨sampleRate, perMs * 200, perMs * 20⟩

/-- A source's ring: samples for left and right in turn. -/
structure SourceRing where
  buf : List Rat
  primed : Bool
deriving DecidableEq

structure Mixer where
  cfg : MixerConfig
  sources : Assoc UInt32 SourceRing
  framesEmitted : Nat
  trims : Nat

namespace Mixer

def new (cfg : MixerConfig) : Mixer := ⟨cfg, .empty, 0, 0⟩

def addSource (m : Mixer) (key : UInt32) : Mixer :=
  if (m.sources.get? key).isSome then m
  else { m with sources := m.sources.insert key ⟨[], false⟩ }

def removeSource (m : Mixer) (key : UInt32) : Mixer :=
  { m with sources := m.sources.remove key }

end Mixer

/-- The samples without a last one that has no partner. -/
def wholeFrames (stereo : List Rat) : List Rat := stereo.take (stereo.length - stereo.length % 2)

/-- Samples go at the end; the oldest go, above the cap. -/
def SourceRing.push (cfg : MixerConfig) (ring : SourceRing) (stereo : List Rat) : SourceRing :=
  let buf := ring.buf ++ wholeFrames stereo
  let cap := cfg.maxRingFrames * 2
  let buf := if cap < buf.length then buf.drop (buf.length - cap) else buf
  ⟨buf, ring.primed || decide (cfg.primeFrames * 2 ≤ buf.length)⟩

/-- Appends samples to the ring of a source, if it has one. -/
def Mixer.push (m : Mixer) (key : UInt32) (stereo : List Rat) : Mixer :=
  match m.sources.get? key with
  | none => m
  | some ring =>
    { m with
      sources := m.sources.insert key (ring.push m.cfg stereo)
      trims := if m.cfg.maxRingFrames * 2 < (ring.buf ++ wholeFrames stereo).length then m.trims + 1
        else m.trims }

/-- A stream's frames in a time, in nanoseconds. -/
def MixerConfig.framesIn (cfg : MixerConfig) (elapsed : Nat) : Nat :=
  elapsed * cfg.sampleRate.toNat / 1000000000

/-- The frames that are due. Those over the cap are forgiven. -/
def Mixer.framesDue (m : Mixer) (elapsed : Nat) : Mixer × Nat :=
  let target := m.cfg.framesIn elapsed % 2 ^ 64
  let due := target - m.framesEmitted
  let cap := m.cfg.maxRingFrames
  if cap < due then ({ m with framesEmitted := m.framesEmitted + (due - cap) }, cap) else (m, due)

/-- What a ring gives for `want` samples, if primed and not empty. -/
def SourceRing.take (want : Nat) (ring : SourceRing) : SourceRing × Option (List Rat) :=
  if !ring.primed then (ring, none)
  else if ring.buf.isEmpty then ({ ring with primed := false }, none)
  else
    let n := min want ring.buf.length
    ({ ring with buf := ring.buf.drop n }, some (ring.buf.take n))

def addInto : List Rat → List Rat → List Rat
  | o :: out, s :: samples => (o + s) :: addInto out samples
  | out, [] => out
  | [], _ => []

def clamp (s : Rat) : Rat := if s < -1 then -1 else if 1 < s then 1 else s

/-- Adds up frames of every ring, if any gave some. -/
def Mixer.mix (m : Mixer) (frames : Nat) : Mixer × Option (List Rat) :=
  let m := { m with framesEmitted := m.framesEmitted + frames }
  if frames = 0 then (m, none)
  else
    let want := frames * 2
    let given := m.sources.rows.filterMap fun e => (e.2.take want).2
    let m := { m with sources := m.sources.mapValues fun _ ring => (ring.take want).1 }
    if given.isEmpty then (m, none)
    else (m, some ((given.foldl addInto (List.replicate want 0)).map clamp))

/-! ## Sessions -/

/-- The samples that wait in the ring of a source. -/
def Mixer.buffered (m : Mixer) (key : UInt32) : List Rat :=
  ((m.sources.get? key).map SourceRing.buf).getD []

/-- The oldest samples, as many as there are fewer of. -/
def missing (before after : List Rat) : List Rat := before.take (before.length - after.length)

/-- How samples left a ring: trimmed, with how many kept, or mixed in a tick. -/
inductive Fate where
  | trimmed (kept : Nat)
  | mixed (tick : Nat)
deriving DecidableEq

/-- Samples that left a ring at one time. -/
structure Piece where
  fate : Fate
  samples : List Rat

/-- A tick's sources, and what was taken from each. -/
structure Tick where
  frames : Nat
  keys : List UInt32
  taken : UInt32 → List Rat
  out : Option (List Rat)

/-- A mixer with its history. -/
structure Session where
  mixer : Mixer
  /-- When the last tick was. -/
  elapsed : Nat
  /-- What was pushed to a source since it was added. -/
  pushed : UInt32 → List (List Rat)
  /-- What left the ring of a source since then. -/
  gone : UInt32 → List Piece
  ticks : List Tick

inductive Action where
  | addSource (key : UInt32)
  | removeSource (key : UInt32)
  | push (key : UInt32) (stereo : List Rat)
  | tick (elapsed : Nat)

/-- The history with one more item for a source. -/
def noted {α : Type} (history : UInt32 → List α) (key : UInt32) (x : α) : UInt32 → List α :=
  fun k => if k = key then history k ++ [x] else history k

/-- The history without that of a source. -/
def forgotten {α : Type} (history : UInt32 → List α) (key : UInt32) : UInt32 → List α :=
  fun k => if k = key then [] else history k

namespace Session

def start (cfg : MixerConfig) : Session := ⟨.new cfg, 0, fun _ => [], fun _ => [], []⟩

variable (s : Session)

def addSource (key : UInt32) : Session :=
  if (s.mixer.sources.get? key).isSome then { s with mixer := s.mixer.addSource key }
  else
    { s with
      mixer := s.mixer.addSource key
      pushed := forgotten s.pushed key
      gone := forgotten s.gone key }

def push (key : UInt32) (stereo : List Rat) : Session :=
  let mixer := s.mixer.push key stereo
  if (s.mixer.sources.get? key).isSome then
    { s with
      mixer
      pushed := noted s.pushed key stereo
      gone := noted s.gone key
        ⟨.trimmed (mixer.buffered key).length,
          missing (s.mixer.buffered key ++ wholeFrames stereo) (mixer.buffered key)⟩ }
  else { s with mixer }

/-- A tick of the mixer's thread: it mixes the frames that are due. -/
def tick (elapsed : Nat) : Session :=
  let due := s.mixer.framesDue elapsed
  let mixed := due.1.mix due.2
  let taken (key : UInt32) : List Rat := missing (s.mixer.buffered key) (mixed.1.buffered key)
  { s with
    mixer := mixed.1
    elapsed
    gone := fun key => s.gone key ++ [⟨.mixed s.ticks.length, taken key⟩]
    ticks := s.ticks ++ [⟨due.2, s.mixer.sources.rows.map Prod.fst, taken, mixed.2⟩] }

def next : Action → Session
  | .addSource key => s.addSource key
  | .removeSource key => { s with mixer := s.mixer.removeSource key }
  | .push key stereo => s.push key stereo
  | .tick elapsed => s.tick elapsed

end Session

/-- The time does not go back. -/
def Timely (s : Session) : Action → Prop
  | .tick elapsed => s.elapsed ≤ elapsed
  | _ => True

/-- The sessions of a configuration. -/
def sessions (cfg : MixerConfig) : System Session Action where
  init s := s = .start cfg
  step s a s' := Timely s a ∧ s' = s.next a

/-! ## What holds of a session -/

def Tick.framesOut (t : Tick) : Nat := (t.out.getD []).length / 2

/-- The samples of a tick are the sums of those it took. -/
structure Tick.Summed (t : Tick) : Prop where
  nodup : t.keys.Nodup
  outside : ∀ key, key ∉ t.keys → t.taken key = []
  /-- Nothing is taken in vain. -/
  nothing : t.out = none → ∀ key, t.taken key = []
  sums : ∀ out, t.out = some out → out.length = t.frames * 2 ∧
    (∀ key, (t.taken key).length ≤ out.length) ∧
    ∀ i, i < out.length → out.getD i 0 = clamp (t.keys.map fun key => (t.taken key).getD i 0).sum

/-- The tick in which samples were mixed. -/
def Fate.tick? : Fate → Option Nat
  | .trimmed _ => none
  | .mixed t => some t

/-- All samples are accounted for, and the clock is kept. -/
structure Conserved (s : Session) : Prop where
  /-- What was pushed has left the ring, in order, or is in it. -/
  accounted : ∀ key ring, s.mixer.sources.get? key = some ring →
    ((s.pushed key).map wholeFrames).flatten =
      ((s.gone key).map Piece.samples).flatten ++ ring.buf
  /-- What left to be mixed is what a tick took, -/
  mixed : ∀ key, ∀ p ∈ s.gone key, ∀ t, p.fate = .mixed t →
    ∃ tick, s.ticks[t]? = some tick ∧ p.samples = tick.taken key
  /-- once, and in order. -/
  once : ∀ key, ((s.gone key).filterMap fun p => p.fate.tick?).Pairwise (· < ·)
  summed : ∀ tick ∈ s.ticks, tick.Summed
  /-- What is trimmed is what is over the cap. -/
  trimmed : ∀ key, ∀ p ∈ s.gone key, ∀ kept, p.fate = .trimmed kept →
    p.samples = [] ∨ kept = s.mixer.cfg.maxRingFrames * 2
  capped : ∀ key ring, s.mixer.sources.get? key = some ring →
    ring.buf.length ≤ s.mixer.cfg.maxRingFrames * 2
  /-- The mixer's count has the frames out, and is within the clock's. -/
  counted : (s.ticks.map Tick.framesOut).sum ≤ s.mixer.framesEmitted
  allowed : s.mixer.framesEmitted ≤ s.mixer.cfg.framesIn s.elapsed
  in64 : s.mixer.framesEmitted < 2 ^ 64

/-! ## Rings -/

section Rings

variable {cfg : MixerConfig} {ring : SourceRing} {want : Nat}

theorem missing_append (xs ys : List Rat) : missing (xs ++ ys) ys = xs := by
  rw [missing, length_append, Nat.add_sub_cancel, take_left]

theorem missing_self (xs : List Rat) : missing xs xs = [] := by
  rw [missing, Nat.sub_self, take_zero]

theorem push_spec (cfg : MixerConfig) (ring : SourceRing) (stereo : List Rat) :
    ∃ old, ring.buf ++ wholeFrames stereo = old ++ (ring.push cfg stereo).buf ∧
      (old = [] ∨ (ring.push cfg stereo).buf.length = cfg.maxRingFrames * 2) ∧
      (ring.push cfg stereo).buf.length ≤ cfg.maxRingFrames * 2 := by
  rw [SourceRing.push]
  dsimp only
  split
  · refine ⟨_, (take_append_drop _ _).symm, .inr ?_, ?_⟩ <;> rw [length_drop] <;> omega
  · exact ⟨[], rfl, .inl rfl, by omega⟩

theorem take_spec (want : Nat) (ring : SourceRing) :
    ring.buf = (ring.take want).2.getD [] ++ (ring.take want).1.buf ∧
      ((ring.take want).2.getD []).length ≤ want := by
  rw [SourceRing.take]
  split
  · exact ⟨rfl, Nat.zero_le _⟩
  · split
    · exact ⟨rfl, Nat.zero_le _⟩
    · refine ⟨(take_append_drop _ _).symm, ?_⟩
      rw [Option.getD_some, length_take]
      omega

theorem missing_take (want : Nat) (ring : SourceRing) :
    missing ring.buf (ring.take want).1.buf = (ring.take want).2.getD [] := by
  have happend := (take_spec want ring).1
  calc missing ring.buf (ring.take want).1.buf
      = missing ((ring.take want).2.getD [] ++ (ring.take want).1.buf) (ring.take want).1.buf := by
        rw [← happend]
    _ = (ring.take want).2.getD [] := missing_append _ _

end Rings

/-! ## Sums -/

section Sums

variable {out samples : List Rat} {i : Nat}

theorem length_addInto (out samples : List Rat) : (addInto out samples).length = out.length := by
  induction out, samples using addInto.induct with
  | case1 o out s samples ih => rw [addInto, length_cons, ih, length_cons]
  | case2 out => cases out <;> rfl
  | case3 samples => cases samples <;> rfl

theorem getD_addInto (h : samples.length ≤ out.length) :
    (addInto out samples).getD i 0 = out.getD i 0 + samples.getD i 0 := by
  induction out, samples using addInto.induct generalizing i with
  | case1 o out s samples ih =>
    rw [addInto]
    cases i with
    | zero => rfl
    | succ i => exact ih (Nat.le_of_succ_le_succ h)
  | case2 out =>
    have hsame : addInto out [] = out := by cases out <;> rfl
    rw [hsame]
    exact (Rat.add_zero _).symm
  | case3 samples hne => exact absurd (length_eq_zero_iff.1 (Nat.le_zero.1 h)) hne

theorem foldl_addInto (given : List (List Rat)) (h : ∀ xs ∈ given, xs.length ≤ out.length) :
    (given.foldl addInto out).length = out.length ∧
      (given.foldl addInto out).getD i 0 = out.getD i 0 + (given.map (·.getD i 0)).sum := by
  induction given generalizing out with
  | nil => exact ⟨rfl, (Rat.add_zero _).symm⟩
  | cons xs given ih =>
    have hxs := h xs mem_cons_self
    have hrest : ∀ ys ∈ given, ys.length ≤ (addInto out xs).length := fun ys hys => by
      rw [length_addInto]
      exact h ys (mem_cons_of_mem xs hys)
    obtain ⟨hlength, hget⟩ := ih hrest
    rw [foldl_cons, hlength, hget, length_addInto, getD_addInto hxs, map_cons,
      sum_cons, Rat.add_assoc]
    exact ⟨rfl, rfl⟩

theorem sum_filterMap {α : Type} (rows : List α) (f : α → Option (List Rat)) (i : Nat) :
    ((rows.filterMap f).map (·.getD i 0)).sum =
      (rows.map fun x => ((f x).getD []).getD i 0).sum := by
  induction rows with
  | nil => rfl
  | cons x rows ih =>
    rw [map_cons, sum_cons, ← ih]
    rcases hx : f x with _ | xs
    · rw [filterMap_cons_none hx]
      exact (Rat.zero_add _).symm
    · rw [filterMap_cons_some hx]
      rfl

end Sums

/-! ## Steps -/

section Steps

variable {m : Mixer} {key : UInt32} {s : Session}

theorem buffered_of_get? {ring : SourceRing} (h : m.sources.get? key = some ring) :
    m.buffered key = ring.buf := by
  rw [Mixer.buffered, h]
  rfl

theorem buffered_of_none (h : m.sources.get? key = none) : m.buffered key = [] := by
  rw [Mixer.buffered, h]
  rfl

theorem mem_keys : key ∈ m.sources.rows.map Prod.fst ↔ (m.sources.get? key).isSome := by
  rw [mem_map, Option.isSome_iff_exists]
  constructor
  · rintro ⟨e, he, rfl⟩
    exact ⟨e.2, Assoc.get?_eq_some.2 he⟩
  · rintro ⟨ring, hring⟩
    exact ⟨_, Assoc.get?_eq_some.1 hring, rfl⟩

/-- What the rings give for a number of frames. -/
def Mixer.given (m : Mixer) (frames : Nat) : List (List Rat) :=
  m.sources.rows.filterMap fun e => (e.2.take (frames * 2)).2

theorem mix_zero (m : Mixer) : m.mix 0 = (m, none) := rfl

theorem mix_of_pos {frames : Nat} (h : frames ≠ 0) :
    (m.mix frames).1 = { m with
      framesEmitted := m.framesEmitted + frames
      sources := m.sources.mapValues fun _ ring => (ring.take (frames * 2)).1 } ∧
    (m.mix frames).2 = if (m.given frames).isEmpty then none
      else some (((m.given frames).foldl addInto (List.replicate (frames * 2) 0)).map clamp) := by
  rw [Mixer.mix, if_neg h, Mixer.given]
  dsimp only
  split <;> exact ⟨rfl, rfl⟩

theorem mix_cfg (m : Mixer) (frames : Nat) : (m.mix frames).1.cfg = m.cfg := by
  by_cases h : frames = 0
  · rw [h, mix_zero]
  · rw [(mix_of_pos h).1]

theorem mix_framesEmitted (m : Mixer) (frames : Nat) :
    (m.mix frames).1.framesEmitted = m.framesEmitted + frames := by
  by_cases h : frames = 0
  · rw [h, mix_zero, Nat.add_zero]
  · rw [(mix_of_pos h).1]

theorem missing_mix {frames : Nat} (h : frames ≠ 0) (key : UInt32) :
    missing (m.buffered key) ((m.mix frames).1.buffered key) =
      ((m.sources.get? key).bind fun ring => (ring.take (frames * 2)).2).getD [] := by
  rcases hring : m.sources.get? key with _ | ring
  · rw [buffered_of_none hring, missing, take_nil]
    rfl
  · have hget : (m.mix frames).1.sources.get? key = some (ring.take (frames * 2)).1 := by
      rw [(mix_of_pos h).1, Assoc.get?_mapValues, hring]
      rfl
    rw [buffered_of_get? hring, buffered_of_get? hget, missing_take]
    rfl

theorem buffered_mix (m : Mixer) (frames : Nat) (key : UInt32) :
    m.buffered key = missing (m.buffered key) ((m.mix frames).1.buffered key) ++
      (m.mix frames).1.buffered key := by
  by_cases h : frames = 0
  · rw [h, mix_zero, missing_self, nil_append]
  · rw [missing_mix h]
    rcases hring : m.sources.get? key with _ | ring
    · rw [buffered_of_none hring, buffered_of_none]
      · rfl
      · rw [(mix_of_pos h).1, Assoc.get?_mapValues, hring]
        rfl
    · have hget : (m.mix frames).1.sources.get? key = some (ring.take (frames * 2)).1 := by
        rw [(mix_of_pos h).1, Assoc.get?_mapValues, hring]
        rfl
      rw [buffered_of_get? hring, buffered_of_get? hget]
      exact (take_spec (frames * 2) ring).1

theorem isSome_get?_mix (m : Mixer) (frames : Nat) (key : UInt32) :
    ((m.mix frames).1.sources.get? key).isSome = (m.sources.get? key).isSome := by
  by_cases h : frames = 0
  · rw [h, mix_zero]
  · rw [(mix_of_pos h).1, Assoc.get?_mapValues, Option.isSome_map]

theorem length_le_of_mem_given {frames : Nat} {xs : List Rat} (h : xs ∈ m.given frames) :
    xs.length ≤ frames * 2 := by
  obtain ⟨e, -, he⟩ := mem_filterMap.1 h
  have hle := (take_spec (frames * 2) e.2).2
  rwa [he] at hle

theorem sum_missing_mix {frames : Nat} (h : frames ≠ 0) (i : Nat) :
    ((m.sources.rows.map Prod.fst).map fun key =>
      (missing (m.buffered key) ((m.mix frames).1.buffered key)).getD i 0).sum =
        ((m.given frames).map (·.getD i 0)).sum := by
  rw [Mixer.given, sum_filterMap, map_map]
  congr 1
  refine map_congr_left fun e he => ?_
  rw [Function.comp_apply, missing_mix h, Assoc.get?_eq_some.2 he, Option.bind_some]

theorem getD_zeros (n i : Nat) : (List.replicate n (0 : Rat)).getD i 0 = 0 := by
  rw [getD_eq_getElem?_getD, getElem?_replicate]
  split <;> rfl

theorem getD_map_clamp {xs : List Rat} {i : Nat} (h : i < xs.length) :
    (xs.map clamp).getD i 0 = clamp (xs.getD i 0) := by
  rw [getD_eq_getElem?_getD, getElem?_map, getD_eq_getElem?_getD,
    getElem?_eq_getElem h]
  rfl

theorem mix_spec (m : Mixer) (frames : Nat) :
    Tick.Summed ⟨frames, m.sources.rows.map Prod.fst,
      fun key => missing (m.buffered key) ((m.mix frames).1.buffered key), (m.mix frames).2⟩ := by
  have hnodup : (m.sources.rows.map Prod.fst).Nodup := m.sources.nodup
  by_cases hzero : frames = 0
  · -- Nothing is due.
    subst hzero
    exact ⟨hnodup, fun _ _ => missing_self _, fun _ _ => missing_self _,
      fun _ hout => nomatch hout⟩
  · have hout := (mix_of_pos (m := m) hzero).2
    refine ⟨hnodup, fun key hkey => ?_, fun hnone key => ?_, fun out hsome => ?_⟩
    · rw [mem_keys, Option.not_isSome_iff_eq_none] at hkey
      dsimp only
      rw [missing_mix hzero, hkey]
      rfl
    · -- No ring gave anything.
      dsimp only at hnone ⊢
      rw [hout] at hnone
      split at hnone
      · next hempty =>
        rw [missing_mix hzero]
        rcases hring : m.sources.get? key with _ | ring
        · rfl
        · rw [Option.bind_some, filterMap_eq_nil_iff.1 (List.isEmpty_iff.1 hempty) _
            (Assoc.get?_eq_some.1 hring)]
          rfl
      · cases hnone
    · dsimp only at hsome ⊢
      rw [hout] at hsome
      split at hsome
      · cases hsome
      · obtain rfl := Option.some.inj hsome
        have hgiven : ∀ xs ∈ m.given frames,
            xs.length ≤ (List.replicate (frames * 2) (0 : Rat)).length := fun xs hxs => by
          rw [length_replicate]
          exact length_le_of_mem_given hxs
        have hlength : ((m.given frames).foldl addInto
            (List.replicate (frames * 2) 0)).length = frames * 2 := by
          rw [(foldl_addInto (i := 0) _ hgiven).1, length_replicate]
        rw [length_map, hlength]
        refine ⟨rfl, fun key => ?_, fun i hi => ?_⟩
        · rw [missing_mix hzero]
          rcases m.sources.get? key with _ | ring
          · exact Nat.zero_le _
          · exact (take_spec (frames * 2) ring).2
        · rw [getD_map_clamp (by rw [hlength]; exact hi), (foldl_addInto _ hgiven).2, getD_zeros,
            Rat.zero_add, sum_missing_mix hzero]

/-- After the frames due, the clock's allowance is emitted, or more was. -/
theorem framesDue_spec (m : Mixer) (elapsed : Nat) :
    (m.framesDue elapsed).1.cfg = m.cfg ∧ (m.framesDue elapsed).1.sources = m.sources ∧
      m.framesEmitted ≤ (m.framesDue elapsed).1.framesEmitted ∧
      (m.framesDue elapsed).1.framesEmitted + (m.framesDue elapsed).2 =
        max m.framesEmitted (m.cfg.framesIn elapsed % 2 ^ 64) := by
  rw [Mixer.framesDue]
  split
  · exact ⟨rfl, rfl, Nat.le_add_right _ _, by dsimp only; omega⟩
  · exact ⟨rfl, rfl, Nat.le_refl _, by dsimp only; omega⟩

theorem framesIn_mono {cfg : MixerConfig} {a b : Nat} (h : a ≤ b) :
    cfg.framesIn a ≤ cfg.framesIn b :=
  Nat.div_le_div_right (Nat.mul_le_mul_right _ h)

theorem conserved_start (cfg : MixerConfig) : Conserved (.start cfg) where
  accounted _ _ h := nomatch h
  mixed _ _ h := nomatch h
  once _ := List.Pairwise.nil
  summed _ h := nomatch h
  trimmed _ _ h := nomatch h
  capped _ _ h := nomatch h
  counted := Nat.le_refl 0
  allowed := Nat.zero_le _
  in64 := Nat.two_pow_pos 64

theorem forgotten_eq {α : Type} (history : UInt32 → List α) (key k : UInt32) :
    forgotten history key k = if k = key then [] else history k := rfl

theorem noted_eq {α : Type} (history : UInt32 → List α) (key : UInt32) (x : α) (k : UInt32) :
    noted history key x k = if k = key then history k ++ [x] else history k := rfl

theorem mem_forgotten {α : Type} {history : UInt32 → List α} {k : UInt32} {x : α}
    (h : x ∈ forgotten history key k) : x ∈ history k := by
  rw [forgotten_eq] at h
  split at h
  · cases h
  · exact h

theorem Conserved.addSource (h : Conserved s) (key : UInt32) : Conserved (s.addSource key) := by
  rw [Session.addSource, Mixer.addSource]
  split
  · exact h
  · have hget (k : UInt32) (ring : SourceRing)
        (hring : (s.mixer.sources.insert key ⟨[], false⟩).get? k = some ring) :=
      Assoc.get?_insert_eq_some hring
    refine
      { accounted := fun k ring hring => ?_
        mixed := fun k p hp => h.mixed k p (mem_forgotten hp)
        once := fun k => ?_
        summed := h.summed
        trimmed := fun k p hp => h.trimmed k p (mem_forgotten hp)
        capped := fun k ring hring => ?_
        counted := h.counted
        allowed := h.allowed
        in64 := h.in64 }
    · dsimp only
      rcases hget k ring hring with ⟨rfl, rfl⟩ | ⟨hk, hring⟩
      · rw [forgotten_eq, if_pos rfl, forgotten_eq, if_pos rfl]
        rfl
      · rw [forgotten_eq, if_neg hk, forgotten_eq, if_neg hk]
        exact h.accounted k ring hring
    · dsimp only
      rw [forgotten_eq]
      split
      · exact List.Pairwise.nil
      · exact h.once k
    · rcases hget k ring hring with ⟨-, rfl⟩ | ⟨-, hring⟩
      · exact Nat.zero_le _
      · exact h.capped k ring hring

theorem Conserved.removeSource (h : Conserved s) (key : UInt32) :
    Conserved (s.next (.removeSource key)) := by
  have hget (k : UInt32) (ring : SourceRing)
      (hring : (s.mixer.sources.remove key).get? k = some ring) :
      s.mixer.sources.get? k = some ring := by
    rw [Assoc.get?_remove] at hring
    split at hring
    · cases hring
    · exact hring
  exact
    { accounted := fun k ring hring => h.accounted k ring (hget k ring hring)
      mixed := h.mixed
      once := h.once
      summed := h.summed
      trimmed := h.trimmed
      capped := fun k ring hring => h.capped k ring (hget k ring hring)
      counted := h.counted
      allowed := h.allowed
      in64 := h.in64 }

theorem mem_noted {α : Type} {history : UInt32 → List α} {k : UInt32} {x y : α}
    (h : y ∈ noted history key x k) : y ∈ history k ∨ k = key ∧ y = x := by
  rw [noted_eq] at h
  split at h
  · next hk =>
    rcases mem_append.1 h with h | h
    · exact .inl h
    · exact .inr ⟨hk, mem_singleton.1 h⟩
  · exact .inl h

theorem Conserved.push (h : Conserved s) (key : UInt32) (stereo : List Rat) :
    Conserved (s.push key stereo) := by
  rw [Session.push]
  rcases hring : s.mixer.sources.get? key with _ | ring
  · have hmixer : s.mixer.push key stereo = s.mixer := by rw [Mixer.push, hring]
    rw [hmixer]
    exact h
  · obtain ⟨old, hbuf, hold, hcap⟩ := push_spec s.mixer.cfg ring stereo
    have hget (k : UInt32) : (s.mixer.push key stereo).sources.get? k =
        if k = key then some (ring.push s.mixer.cfg stereo) else s.mixer.sources.get? k := by
      rw [Mixer.push, hring]
      exact Assoc.get?_insert
    have hcfg : (s.mixer.push key stereo).cfg = s.mixer.cfg := by rw [Mixer.push, hring]
    have hemitted : (s.mixer.push key stereo).framesEmitted = s.mixer.framesEmitted := by
      rw [Mixer.push, hring]
    have hafter : (s.mixer.push key stereo).buffered key = (ring.push s.mixer.cfg stereo).buf :=
      buffered_of_get? (by rw [hget, if_pos rfl])
    -- What is missing is what was trimmed.
    have hmissing : missing (s.mixer.buffered key ++ wholeFrames stereo)
        ((s.mixer.push key stereo).buffered key) = old := by
      rw [hafter, buffered_of_get? hring, hbuf, missing_append]
    rw [if_pos (Option.isSome_some (a := ring)), hmissing, hafter]
    refine
      { accounted := fun k r hr => ?_
        mixed := fun k p hp t ht => ?_
        once := fun k => ?_
        summed := h.summed
        trimmed := fun k p hp kept hkept => ?_
        capped := fun k r hr => ?_
        counted := by rw [hemitted]; exact h.counted
        allowed := by rw [hemitted, hcfg]; exact h.allowed
        in64 := by rw [hemitted]; exact h.in64 }
    · rw [hget] at hr
      dsimp only
      rw [noted_eq, noted_eq]
      split at hr
      · next hk =>
        obtain rfl := Option.some.inj hr
        subst hk
        rw [if_pos rfl, if_pos rfl, map_append, flatten_append,
          h.accounted k ring hring, map_append, flatten_append, append_assoc,
          append_assoc]
        simp [hbuf]
      · next hk =>
        rw [if_neg hk, if_neg hk]
        exact h.accounted k r hr
    · rcases mem_noted hp with hp | ⟨-, rfl⟩
      · exact h.mixed k p hp t ht
      · cases ht
    · dsimp only
      rw [noted_eq]
      split
      · rw [filterMap_append]
        exact (append_nil _).symm ▸ h.once k
      · exact h.once k
    · rw [hcfg]
      rcases mem_noted hp with hp | ⟨-, rfl⟩
      · exact h.trimmed k p hp kept hkept
      · cases hkept
        exact hold
    · rw [hget] at hr
      rw [hcfg]
      split at hr
      · obtain rfl := Option.some.inj hr
        exact hcap
      · exact h.capped k r hr

theorem Tick.Summed.framesOut_le {t : Tick} (h : t.Summed) : t.framesOut ≤ t.frames := by
  rw [Tick.framesOut]
  rcases hout : t.out with _ | out
  · exact Nat.zero_le _
  · rw [Option.getD_some, (h.sums out hout).1]
    omega

theorem Conserved.tick_lt (h : Conserved s) {key : UInt32} {n : Nat}
    (hn : n ∈ (s.gone key).filterMap fun p => p.fate.tick?) : n < s.ticks.length := by
  obtain ⟨p, hp, htick⟩ := mem_filterMap.1 hn
  rcases hfate : p.fate with kept | t
  · rw [hfate] at htick
    cases htick
  · rw [hfate] at htick
    cases htick
    obtain ⟨tick, hget, -⟩ := h.mixed key p hp n hfate
    exact (List.getElem?_eq_some_iff.1 hget).1

/-- A tick adds up what it takes from the rings' fronts, within the clock's allowance. -/
theorem Conserved.tick (h : Conserved s) {elapsed : Nat} (htime : s.elapsed ≤ elapsed) :
    Conserved (s.tick elapsed) := by
  obtain ⟨hcfg, hsources, hmore, hemitted⟩ := framesDue_spec s.mixer elapsed
  have hsummed := mix_spec (s.mixer.framesDue elapsed).1 (s.mixer.framesDue elapsed).2
  have hbuffered := buffered_mix (s.mixer.framesDue elapsed).1 (s.mixer.framesDue elapsed).2
  have hsome := isSome_get?_mix (s.mixer.framesDue elapsed).1 (s.mixer.framesDue elapsed).2
  have hcfg' := mix_cfg (s.mixer.framesDue elapsed).1 (s.mixer.framesDue elapsed).2
  have hemitted' := mix_framesEmitted (s.mixer.framesDue elapsed).1 (s.mixer.framesDue elapsed).2
  have hsame (key : UInt32) :
      (s.mixer.framesDue elapsed).1.buffered key = s.mixer.buffered key := by
    rw [Mixer.buffered, hsources, Mixer.buffered]
  simp only [hsame] at hsummed hbuffered
  rw [hsources] at hsummed hsome
  rw [hcfg] at hcfg'
  rw [hemitted] at hemitted'
  rw [Session.tick]
  dsimp only
  generalize (s.mixer.framesDue elapsed).1.mix (s.mixer.framesDue elapsed).2 = mixed at *
  generalize (s.mixer.framesDue elapsed).2 = due at *
  -- A ring after the tick is what is left of one before it.
  have hold (key : UInt32) (ring : SourceRing) (hring : mixed.1.sources.get? key = some ring) :
      ∃ ring₀, s.mixer.sources.get? key = some ring₀ ∧
        ring₀.buf = missing (s.mixer.buffered key) (mixed.1.buffered key) ++ ring.buf := by
    have hin := hsome key
    rw [hring, Option.isSome_some] at hin
    obtain ⟨ring₀, hring₀⟩ := Option.isSome_iff_exists.1 hin.symm
    refine ⟨ring₀, hring₀, ?_⟩
    rw [← buffered_of_get? hring, ← hbuffered, buffered_of_get? hring₀]
  have hallowed : s.mixer.cfg.framesIn elapsed % 2 ^ 64 ≤ s.mixer.cfg.framesIn elapsed :=
    Nat.mod_le _ _
  have hin64 : s.mixer.cfg.framesIn elapsed % 2 ^ 64 < 2 ^ 64 :=
    Nat.mod_lt _ (Nat.two_pow_pos 64)
  refine
    { accounted := fun key ring hring => ?_
      mixed := fun key p hp t ht => ?_
      once := fun key => ?_
      summed := fun t ht => ?_
      trimmed := fun key p hp kept hkept => ?_
      capped := fun key ring hring => ?_
      counted := ?_
      allowed := ?_
      in64 := ?_ }
  · obtain ⟨ring₀, hring₀, hbuf⟩ := hold key ring hring
    dsimp only
    rw [h.accounted key ring₀ hring₀, hbuf, map_append, flatten_append,
      append_assoc]
    simp
  · dsimp only at hp ⊢
    rcases mem_append.1 hp with hp | hp
    · obtain ⟨tick, hget, hsamples⟩ := h.mixed key p hp t ht
      exact ⟨tick, by rw [getElem?_append_left (List.getElem?_eq_some_iff.1 hget).1, hget],
        hsamples⟩
    · obtain rfl := mem_singleton.1 hp
      cases ht
      exact ⟨_, getElem?_concat_length, rfl⟩
  · dsimp only
    rw [filterMap_append]
    refine pairwise_append.2 ⟨h.once key, pairwise_singleton _ _, fun n hn m hm => ?_⟩
    obtain rfl := mem_singleton.1 hm
    exact h.tick_lt hn
  · rcases mem_append.1 ht with ht | ht
    · exact h.summed t ht
    · obtain rfl := mem_singleton.1 ht
      exact hsummed
  · rw [hcfg']
    rcases mem_append.1 hp with hp | hp
    · exact h.trimmed key p hp kept hkept
    · obtain rfl := mem_singleton.1 hp
      cases hkept
  · obtain ⟨ring₀, hring₀, hbuf⟩ := hold key ring hring
    have hlength := congrArg List.length hbuf
    have hcap := h.capped key ring₀ hring₀
    rw [length_append] at hlength
    rw [hcfg']
    omega
  · have hout := hsummed.framesOut_le
    have hcounted := h.counted
    rw [map_append, sum_append, hemitted']
    dsimp only at hout
    rw [map_singleton, sum_singleton]
    omega
  · have hbefore := h.allowed
    have hmono := @framesIn_mono s.mixer.cfg _ _ htime
    dsimp only
    rw [hemitted', hcfg']
    omega
  · have hbefore := h.in64
    dsimp only
    rw [hemitted']
    omega

theorem Conserved.next (h : Conserved s) {a : Action} (htime : Timely s a) :
    Conserved (s.next a) := by
  cases a with
  | addSource key => exact h.addSource key
  | removeSource key => exact h.removeSource key
  | push key stereo => exact h.push key stereo
  | tick elapsed => exact h.tick htime

theorem next_cfg (s : Session) (a : Action) : (s.next a).mixer.cfg = s.mixer.cfg := by
  cases a with
  | addSource key =>
    rw [Session.next, Session.addSource, Mixer.addSource]
    split <;> rfl
  | removeSource key => rfl
  | push key stereo =>
    have hcfg : (s.mixer.push key stereo).cfg = s.mixer.cfg := by
      rw [Mixer.push]
      split <;> rfl
    rw [Session.next, Session.push]
    split <;> exact hcfg
  | tick elapsed =>
    rw [Session.next, Session.tick, ← (framesDue_spec s.mixer elapsed).1]
    exact mix_cfg _ _

end Steps

/-! ## Runs -/

/-- In every session each sample of a whole frame pushed is mixed once, in order, or trimmed, oldest
    first, or in the ring; no ring is over the cap, and no more frames come out than the clock
    allows. -/
theorem mixer_conserves (cfg : MixerConfig) {s : Session} (h : (sessions cfg).Reachable s) :
    s.mixer.cfg = cfg ∧ Conserved s := by
  induction h with
  | init h =>
    subst h
    exact ⟨rfl, conserved_start cfg⟩
  | step a _ hs ih =>
    obtain ⟨htime, rfl⟩ := hs
    exact ⟨(next_cfg _ a).trans ih.1, ih.2.next htime⟩

/-- Five samples are pushed to a source, and a frame is due. -/
def fiveSamples : Session :=
  (((Session.start ⟨1000, 4, 1⟩).next (.addSource 1)).next (.push 1 [1, 2, 3, 4, 5])).next
    (.tick 1000000)

theorem mixer_conserves_fiveSamples :
    (fiveSamples.ticks.map Tick.framesOut = [1] ∧ fiveSamples.mixer.buffered 1 = [3, 4]) ∧
      fiveSamples.mixer.cfg = ⟨1000, 4, 1⟩ ∧ Conserved fiveSamples := by
  have hreach : (sessions ⟨1000, 4, 1⟩).Reachable fiveSamples :=
    .step (.tick 1000000) (.step (.push 1 [1, 2, 3, 4, 5]) (.step (.addSource 1) (.init rfl)
      ⟨trivial, rfl⟩) ⟨trivial, rfl⟩) ⟨Nat.zero_le _, rfl⟩
  exact ⟨by decide +kernel, mixer_conserves _ hreach⟩

/-- A sample without a partner is not accounted for. -/
theorem not_mixer_conserves : ¬ ∀ cfg s, (sessions cfg).Reachable s → ∀ key ring,
    s.mixer.sources.get? key = some ring →
      (s.pushed key).flatten = ((s.gone key).map Piece.samples).flatten ++ ring.buf := by
  intro h
  have hreach : (sessions ⟨1000, 4, 1⟩).Reachable fiveSamples :=
    .step (.tick 1000000) (.step (.push 1 [1, 2, 3, 4, 5]) (.step (.addSource 1) (.init rfl)
      ⟨trivial, rfl⟩) ⟨trivial, rfl⟩) ⟨Nat.zero_le _, rfl⟩
  have hget : fiveSamples.mixer.sources.get? 1 = some ⟨[3, 4], true⟩ := by decide +kernel
  exact absurd (h _ _ hreach 1 _ hget) (by decide +kernel)

end Decibell.AudioMixer
