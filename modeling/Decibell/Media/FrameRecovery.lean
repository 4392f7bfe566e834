import Decibell.Lib.Parity
import Decibell.Media.VideoPackets
import Decibell.Media.VideoReceiver
import Mathlib.Data.List.Perm.Subperm

/-!
# What is rebuilt of a frame

A frame is sent as fragments and FEC packets, some of which are lost, and the others come in any
order, some of them more than once.
-/

namespace Decibell.Media

open Lib List

/-! ## Packets of one frame -/

namespace FrameAssembly

/-- A fragment, which may begin its frame, and whether that is complete. -/
def takeVideo (a : Option FrameAssembly) (pkt : UdpVideoPacket) (now : Instant)
    (afterSilence : Bool) : FrameAssembly × Bool :=
  let frame := a.getD (.new pkt.totalPackets.toNat pkt.isKeyframe pkt.codec afterSilence now)
  let frame := frame.insert pkt.packetIndex.toNat pkt.payload pkt.stream now
  if frame.isComplete then (frame, true) else frame.tryFecRecovery

def groupOf (pkt : UdpFecPacket) : FecGroup where
  groupStart := pkt.groupStart.toNat
  groupCount := pkt.groupCount.toNat
  payloadSizeXor := pkt.payloadSizeXor.toNat
  payload := pkt.payload

def takeFec (frame : FrameAssembly) (pkt : UdpFecPacket) : FrameAssembly × Bool :=
  (frame.addFecGroup (groupOf pkt) pkt.stream).tryFecRecovery

/-- A complete frame leaves those in progress, with its data. -/
def settle (tried : FrameAssembly × Bool) : Option FrameAssembly × Option Bytes :=
  if tried.2 then (none, some tried.1.intoData) else (some tried.1, none)

/-- What a packet makes of its frame: nothing if malformed, or FEC of a frame not begun. -/
def onPacket (a : Option FrameAssembly) (now : Instant) (afterSilence : Bool) :
    FramePacket → Option FrameAssembly × Option Bytes
  | .video pkt =>
    if VideoReceiver.malformed pkt then (a, none) else settle (takeVideo a pkt now afterSilence)
  | .fec pkt =>
    match a with
    | none => (none, none)
    | some frame => settle (frame.takeFec pkt)

/-- A datagram that comes to the receiver of a call. -/
structure Arrival where
  now : Instant
  /-- The sender had been silent before it. -/
  afterSilence : Bool
  datagram : Bytes

def onDatagram (encrypted : Bool) (a : Option FrameAssembly) (d : Arrival) :
    Option FrameAssembly × Option Bytes :=
  match parseDatagram encrypted d.datagram with
  | none => (a, none)
  | some p => onPacket a d.now d.afterSilence p

/-- The first frame completed, and how many datagrams came before. -/
def firstFrame (encrypted : Bool) (a : Option FrameAssembly) (before : Nat) :
    List Arrival → Option (Bytes × Nat)
  | [] => none
  | d :: rest =>
    match onDatagram encrypted a d with
    | (_, some data) => some (data, before)
    | (a', none) => firstFrame encrypted a' (before + 1) rest

end FrameAssembly

/-! The receiver keeps a frame for each frame id, and takes a packet so. -/

namespace SenderState

open FrameAssembly

variable {s : SenderState} {frameId : UInt32} {tried : FrameAssembly × Bool} {now : Instant}

theorem putFrame_settles {stream : Nat} :
    ((s.putFrame frameId tried stream).1.framesInProgress.get? frameId,
      (s.putFrame frameId tried stream).2.map (·.1.data)) = settle tried := by
  rw [putFrame, settle]
  split
  · exact Prod.ext (Assoc.get?_remove.trans (if_pos rfl)) rfl
  · exact Prod.ext (Assoc.get?_insert.trans (if_pos rfl)) rfl

theorem processPacket_settles {pkt : UdpVideoPacket} {pick : UInt32}
    (h : ¬ (!pkt.isKeyframe && s.nextDelivery.any (seqBefore pkt.frameId)) = true) :
    ((s.processPacket pkt now pick).1.framesInProgress.get? pkt.frameId,
      (s.processPacket pkt now pick).2.map (·.1.data)) =
      settle (takeVideo (s.framesInProgress.get? pkt.frameId) pkt now
        (restartSilence ≤ durationSince now s.lastActivity)) := by
  have hkept : (s.framesInProgress.removeAny (s.framesInProgress.victim maxFramesInProgress
      (·.createdAt) pick pkt.frameId)).get? pkt.frameId = s.framesInProgress.get? pkt.frameId :=
    Assoc.get?_removeAny_victim
  rw [processPacket, ← hkept]
  dsimp only
  rw [if_neg h]
  exact putFrame_settles

end SenderState

namespace FrameAssembly

/-! ## Bytes and their parity -/

def padded (bytes : Bytes) (i : Nat) : UInt8 := bytes.getD i 0

theorem byteParity : Parity (fun a b : UInt8 => a ^^^ b) 0 where
  comm := UInt8.xor_comm
  assoc := UInt8.xor_assoc
  zero_op _ := UInt8.zero_xor
  self _ := UInt8.xor_self

theorem sizeParity : Parity (fun a b : Nat => a ^^^ b) 0 where
  comm := Nat.xor_comm
  assoc := Nat.xor_assoc
  zero_op := Nat.zero_xor
  self := Nat.xor_self

/-- A FEC packet's parities, of the bytes by place and of the sizes. -/
def xorBoth (p q : (Nat → UInt8) × Nat) : (Nat → UInt8) × Nat :=
  (fun i => p.1 i ^^^ q.1 i, p.2 ^^^ q.2)

theorem bothParity : Parity xorBoth (fun _ => 0, 0) := byteParity.pi.prod sizeParity

theorem padded_xorInto {recovered bytes : Bytes} (h : bytes.length ≤ recovered.length) :
    padded (xorInto recovered bytes) = fun i => padded recovered i ^^^ padded bytes i := by
  induction recovered generalizing bytes with
  | nil =>
    obtain rfl := eq_nil_of_length_eq_zero (Nat.le_zero.1 h)
    funext i
    simp [padded, xorInto]
  | cons r recovered ih =>
    cases bytes with
    | nil =>
      funext i
      exact UInt8.xor_zero.symm
    | cons b bytes =>
      funext i
      cases i with
      | zero => rfl
      | succ i => exact congrFun (ih (Nat.le_of_succ_le_succ h)) i

theorem padded_replicate (n : Nat) : padded (List.replicate n 0) = fun _ => 0 := by
  funext i
  rw [padded, getD_eq_getElem?_getD, getElem?_replicate]
  split <;> rfl

theorem take_eq_of_padded {recovered bytes : Bytes} (h : padded recovered = padded bytes)
    (hlength : bytes.length ≤ recovered.length) : recovered.take bytes.length = bytes := by
  refine ext_getElem ?_ fun i hi hi' => ?_
  · rw [length_take, Nat.min_eq_left hlength]
  · have hsame := congrFun h i
    rw [padded, padded, getD_eq_getElem?_getD, getD_eq_getElem?_getD,
      getElem?_eq_getElem hi', getElem?_eq_getElem (by omega)] at hsame
    rw [getElem_take]
    exact hsame

/-- What a fragment adds to the parities. -/
def contribution (bytes : Bytes) : (Nat → UInt8) × Nat := (padded bytes, bytes.length)

/-- Fragments XORed into the bytes and the size of a FEC packet. -/
def xorFragments (fragment : Nat → Bytes) (l : List Nat) (recovered : Bytes × Nat) : Bytes × Nat :=
  l.foldl (fun r i => (xorInto r.1 (fragment i), r.2 ^^^ (fragment i).length)) recovered

theorem xorFragments_spec {fragment : Nat → Bytes} (l : List Nat) (recovered : Bytes × Nat)
    (hsize : ∀ i, (fragment i).length ≤ recovered.1.length) :
    (xorFragments fragment l recovered).1.length = recovered.1.length ∧
      (padded (xorFragments fragment l recovered).1, (xorFragments fragment l recovered).2) =
        l.foldl (fun r i => xorBoth r (contribution (fragment i)))
          (padded recovered.1, recovered.2) := by
  induction l generalizing recovered with
  | nil => exact ⟨rfl, rfl⟩
  | cons i l ih =>
    have hlength := length_xorInto recovered.1 (fragment i)
    obtain ⟨hlength', hfold⟩ := ih (xorInto recovered.1 (fragment i), recovered.2 ^^^
      (fragment i).length) fun j => (hsize j).trans (Nat.le_of_eq hlength.symm)
    refine ⟨hlength'.trans hlength, hfold.trans ?_⟩
    rw [foldl_cons, padded_xorInto (hsize i)]
    rfl

/-! ## The slots of the buffer -/

variable {a a' : FrameAssembly} {i j size : Nat} {payload : Bytes}

theorem getElem?_writeAt {buf bytes : Bytes} {at' : Nat} (h : at' + bytes.length ≤ buf.length)
    (k : Nat) : (writeAt buf at' bytes)[k]? =
      if at' ≤ k ∧ k < at' + bytes.length then bytes[k - at']? else buf[k]? := by
  rw [writeAt, append_assoc, getElem?_append, length_take,
    Nat.min_eq_left (by omega)]
  split
  · rename_i hk
    rw [if_neg (by omega), getElem?_take_of_lt hk]
  · rename_i hk
    rw [getElem?_append]
    split
    · rw [if_pos (by omega)]
    · rw [if_neg (by omega), getElem?_drop]
      congr 1
      omega

theorem read_writeAt {buf bytes : Bytes} {at' : Nat} (h : at' + bytes.length ≤ buf.length) :
    ((writeAt buf at' bytes).drop at').take bytes.length = bytes := by
  rw [writeAt, append_assoc, drop_left' (by rw [length_take]; omega), take_left]

theorem read_writeAt_of_apart {buf bytes : Bytes} {at' place n : Nat}
    (h : at' + bytes.length ≤ buf.length) (hapart : place + n ≤ at' ∨ at' + bytes.length ≤ place) :
    ((writeAt buf at' bytes).drop place).take n = (buf.drop place).take n := by
  refine ext_getElem? fun k => ?_
  rw [getElem?_take, getElem?_take]
  split
  · rw [getElem?_drop, getElem?_drop, getElem?_writeAt h, if_neg (by omega)]
  · rfl

theorem size?_store (hi : i < a.totalPackets) (hpayload : payload.length ≤ udpMaxPayload) :
    (a.store i payload).size? j = if i = j then some payload.length else a.size? j := by
  rw [store, dif_pos ⟨hi, hpayload⟩]
  simp only [size?, getElem?_set]
  split
  · rename_i hj
    rw [hj, if_pos (by rw [← hj, a.sizes_length]; exact hi)]
    rfl
  · rfl

theorem buf_store (hi : i < a.totalPackets) (hpayload : payload.length ≤ udpMaxPayload) :
    (a.store i payload).buf = writeAt a.buf (start i) payload := by
  rw [store, dif_pos ⟨hi, hpayload⟩]

theorem start_apart (h : i ≠ j) (n m : Nat) (hn : n ≤ udpMaxPayload) (hm : m ≤ udpMaxPayload) :
    start j + n ≤ start i ∨ start i + m ≤ start j := by
  rw [start, start]
  rcases Nat.lt_or_gt_of_ne h with h | h
  · have := Nat.mul_le_mul_right udpMaxPayload (Nat.succ_le_of_lt h)
    rw [Nat.succ_mul] at this
    omega
  · have := Nat.mul_le_mul_right udpMaxPayload (Nat.succ_le_of_lt h)
    rw [Nat.succ_mul] at this
    omega

end FrameAssembly

/-! ## An assembly of a sent frame -/

/-- The fragments of a group. -/
def SentFrame.members (f : SentFrame) (start : Nat) : List Nat :=
  List.range' start (f.groupSize start)

structure SentFrame.IsGroup (f : SentFrame) (g : FecGroup) : Prop where
  parity : f.HasParity g.groupStart
  count : g.groupCount = f.groupSize g.groupStart
  size : g.payloadSizeXor = (f.groupParity g.groupStart).sizeXor.toNat
  payload : g.payload = (f.groupParity g.groupStart).payload

/-- Filled slots have their fragments; groups are the sender's. -/
structure FrameAssembly.Faithful (f : SentFrame) (a : FrameAssembly) : Prop where
  total : a.totalPackets = f.totalPackets
  slots : ∀ i size, a.size? i = some size →
    size = (f.fragment i).length ∧ (a.buf.drop (FrameAssembly.start i)).take size = f.fragment i
  groups : ∀ g ∈ a.fecGroups, f.IsGroup g
  starts : (a.fecGroups.map (·.groupStart)).Nodup
  /-- A group that has rebuilt its fragment has them all. -/
  used : ∀ g ∈ a.fecGroups, g.used = true → ∀ i ∈ f.members g.groupStart, (a.size? i).isSome

namespace FrameAssembly

variable {f : SentFrame} {a a' : FrameAssembly} {i m : Nat} {g : FecGroup}

theorem length_fragment_le (f : SentFrame) (i : Nat) : (f.fragment i).length ≤ udpMaxPayload :=
  SentFrame.length_fragment_le i

theorem mem_members {start : Nat} :
    i ∈ f.members start ↔ start ≤ i ∧ i < start + f.groupSize start := mem_range'_1

theorem lt_of_mem_members {start : Nat} (h : i ∈ f.members start) : i < f.totalPackets := by
  have := mem_members.1 h
  rw [SentFrame.groupSize] at this
  omega

theorem covered_eq (hsmall : f.totalPackets ≤ maxPacketsPerFrame) (h : a.Faithful f)
    (hg : f.IsGroup g) : a.covered g = f.members g.groupStart := by
  have hmore := hg.parity.2
  have hsize : g.groupCount = min 5 (f.totalPackets - g.groupStart) := hg.count
  rw [maxPacketsPerFrame] at hsmall
  rw [covered, SentFrame.members, ← hg.count, h.total]
  congr 1
  omega

theorem Faithful.store (h : a.Faithful f) (hi : i < f.totalPackets) :
    (a.store i (f.fragment i)).Faithful f := by
  have hfit : i < a.totalPackets := h.total ▸ hi
  have hsize := length_fragment_le f i
  have hkept : (a.store i (f.fragment i)).fecGroups = a.fecGroups := by
    rw [FrameAssembly.store]
    split <;> rfl
  refine ⟨?_, fun j size hj => ?_, hkept ▸ h.groups, hkept ▸ h.starts, fun g hg hused j hj => ?_⟩
  · rw [FrameAssembly.store]
    split <;> exact h.total
  · rw [size?_store hfit hsize] at hj
    rw [buf_store hfit hsize]
    split at hj
    · rename_i hij
      subst hij
      cases hj
      exact ⟨rfl, read_writeAt (a.start_add_le hfit hsize)⟩
    · rename_i hij
      obtain ⟨rfl, hslot⟩ := h.slots j size hj
      refine ⟨rfl, (read_writeAt_of_apart (a.start_add_le hfit hsize) ?_).trans hslot⟩
      exact start_apart hij _ _ (length_fragment_le f j) hsize
  · rw [size?_store hfit hsize]
    split
    · rfl
    · exact h.used g (hkept ▸ hg) hused j hj

theorem accumulate_spec (start count : Nat) :
    (f.accumulate start count).payload.length = udpMaxPayload ∧
      (padded (f.accumulate start count).payload, (f.accumulate start count).sizeXor.toNat) =
        (List.range' start count).foldl (fun r i => xorBoth r (contribution (f.fragment i)))
          (fun _ => 0, 0) := by
  refine ⟨(f.accumulate start count).full, ?_⟩
  induction count with
  | zero => exact Prod.ext (padded_replicate udpMaxPayload) rfl
  | succ count ih =>
    have hfits : (UInt16.ofNat (f.fragment (start + count)).length).toNat =
        (f.fragment (start + count)).length := by
      have := length_fragment_le f (start + count)
      rw [udpMaxPayload] at this
      rw [UInt16.toNat_ofNat']
      omega
    rw [SentFrame.accumulate_succ, range'_concat, foldl_append, ← ih, Nat.one_mul,
      foldl_cons, foldl_nil, FecAccumulator.add]
    refine Prod.ext (padded_xorInto ?_) ?_
    · exact (length_fragment_le f _).trans (Nat.le_of_eq (f.accumulate start count).full.symm)
    · rw [UInt16.toNat_xor, hfits]
      rfl

theorem rebuilt_eq (hsmall : f.totalPackets ≤ maxPacketsPerFrame) (h : a.Faithful f)
    (hg : f.IsGroup g) (hm : m ∈ f.members g.groupStart)
    (hothers : ∀ i ∈ f.members g.groupStart, i ≠ m → (a.size? i).isSome) :
    (a.rebuilt g m).2 = (f.fragment m).length ∧
      (a.rebuilt g m).1.take (a.rebuilt g m).2 = f.fragment m := by
  obtain ⟨hlength, hparity⟩ := @accumulate_spec f g.groupStart (f.groupSize g.groupStart)
  -- The slots of the others have their fragments.
  have hfragments : a.rebuilt g m = xorFragments f.fragment
      ((f.members g.groupStart).filter (· ≠ m)) (g.payload, g.payloadSizeXor) := by
    rw [rebuilt, covered_eq hsmall h hg, xorFragments]
    refine foldl_ext _ _ _ fun r i hi => ?_
    obtain ⟨hi, hne⟩ := mem_filter.1 hi
    obtain ⟨size, hsize⟩ := Option.isSome_iff_exists.1 (hothers i hi (of_decide_eq_true hne))
    obtain ⟨rfl, hslot⟩ := h.slots i size hsize
    rw [hsize]
    dsimp only
    rw [hslot]
  have hfull : g.payload.length = udpMaxPayload := by rw [hg.payload]; exact hlength
  obtain ⟨hlength', hspec⟩ := @xorFragments_spec f.fragment
    ((f.members g.groupStart).filter (· ≠ m)) (g.payload, g.payloadSizeXor) fun i =>
      (length_fragment_le f i).trans (Nat.le_of_eq hfull.symm)
  rw [← hfragments] at hlength' hspec
  have hgroup : (padded g.payload, g.payloadSizeXor) =
      (f.members g.groupStart).foldl (fun r i => xorBoth r (contribution (f.fragment i)))
        (fun _ => 0, 0) := by
    rw [hg.payload, hg.size]
    exact hparity
  have hnodup : (f.members g.groupStart).Nodup := nodup_range' ..
  rw [hgroup, bothParity.foldl_others _ hnodup hm] at hspec
  have hsize : (a.rebuilt g m).2 = (f.fragment m).length := congrArg Prod.snd hspec
  refine ⟨hsize, ?_⟩
  rw [hsize]
  refine take_eq_of_padded (congrArg Prod.fst hspec) ?_
  rw [hlength', hfull]
  exact length_fragment_le f m

/-! ## The recovery -/

theorem recoverGroup_eq_some {gi : Nat} (h : a.recoverGroup gi = some a') :
    ∃ g m, a.fecGroups[gi]? = some g ∧ g.used = false ∧ a.missing g = [m] ∧
      (a.rebuilt g m).2 ≤ udpMaxPayload ∧
      a' = { a.store m ((a.rebuilt g m).1.take (a.rebuilt g m).2) with
        fecGroups := a.fecGroups.set gi { g with used := true } } := by
  rw [recoverGroup, Option.bind_eq_some_iff] at h
  obtain ⟨g, hg, h⟩ := h
  split at h
  · cases h
  · rename_i hused
    split at h
    · rename_i m hmissing
      dsimp only at h
      split at h
      · rename_i hsize
        exact ⟨g, m, hg, Bool.not_eq_true _ ▸ hused, hmissing, hsize, (Option.some.inj h).symm⟩
      · cases h
    · cases h

theorem fecPass_induct {P : FrameAssembly → Prop}
    (hstep : ∀ a gi a', P a → a.recoverGroup gi = some a' → P a') {l : List Nat}
    {progressed : Bool} (h : P a) : P (fecPass l a progressed).1 := by
  induction l generalizing a progressed with
  | nil => exact h
  | cons gi rest ih =>
    rw [fecPass]
    cases hgroup : a.recoverGroup gi with
    | none => exact ih h
    | some a' =>
      dsimp only
      split
      · exact hstep a gi a' h hgroup
      · exact ih (hstep a gi a' h hgroup)

theorem fecLoop_induct {P : FrameAssembly → Prop}
    (hstep : ∀ a gi a', P a → a.recoverGroup gi = some a' → P a') (h : P a) : P a.fecLoop := by
  induction a using fecLoop.induct with
  | case1 a pass hcomplete =>
    rw [fecLoop, if_pos hcomplete]
    exact fecPass_induct hstep h
  | case2 a pass hcomplete hprogressed hless ih =>
    rw [fecLoop, if_neg hcomplete, dif_pos hprogressed]
    exact ih (fecPass_induct hstep h)
  | case3 a pass hcomplete hprogressed =>
    rw [fecLoop, if_neg hcomplete, dif_neg hprogressed]
    exact fecPass_induct hstep h

theorem tryFecRecovery_induct {P : FrameAssembly → Prop}
    (hstep : ∀ a gi a', P a → a.recoverGroup gi = some a' → P a') (h : P a) :
    P a.tryFecRecovery.1 := by
  rw [tryFecRecovery]
  split
  · exact h
  · exact fecLoop_induct hstep h

theorem fecPass_stuck {l : List Nat} {progressed : Bool}
    (h : (fecPass l a progressed).2 = false) :
    progressed = false ∧ (fecPass l a progressed).1 = a ∧ ∀ gi ∈ l, a.recoverGroup gi = none := by
  induction l generalizing progressed with
  | nil => exact ⟨h, rfl, fun _ hgi => by cases hgi⟩
  | cons gi rest ih =>
    rw [fecPass] at h ⊢
    cases hgroup : a.recoverGroup gi with
    | none =>
      rw [hgroup] at h
      obtain ⟨hprogressed, hsame, hnone⟩ := ih h
      refine ⟨hprogressed, hsame, fun gj hgj => ?_⟩
      rcases mem_cons.1 hgj with rfl | hgj
      · exact hgroup
      · exact hnone gj hgj
    | some a' =>
      rw [hgroup] at h
      dsimp only at h
      split at h
      · cases h
      · -- It got further, and a pass does not forget that.
        exfalso
        have hkept : ∀ (l : List Nat) (b : FrameAssembly), (fecPass l b true).2 = true := by
          intro l
          induction l with
          | nil => exact fun _ => rfl
          | cons gj rest ih =>
            intro b
            rw [fecPass]
            split
            · exact ih b
            · split
              · rfl
              · exact ih _
        rw [hkept] at h
        cases h

/-- Recovery ends with the frame complete, or no group able to rebuild. -/
theorem fecLoop_stuck : a.fecLoop.isComplete = true ∨ ∀ gi, a.fecLoop.recoverGroup gi = none := by
  induction a using fecLoop.induct with
  | case1 a pass hcomplete =>
    rw [fecLoop, if_pos hcomplete]
    exact .inl hcomplete
  | case2 a pass hcomplete hprogressed hless ih =>
    rw [fecLoop, if_neg hcomplete, dif_pos hprogressed]
    exact ih
  | case3 a pass hcomplete hprogressed =>
    rw [fecLoop, if_neg hcomplete, dif_neg hprogressed]
    obtain ⟨-, hsame, hnone⟩ := fecPass_stuck (Bool.not_eq_true _ ▸ hprogressed)
    rw [hsame]
    refine .inr fun gi => ?_
    by_cases hgi : gi < a.fecGroups.length
    · exact hnone gi (mem_range.2 hgi)
    · rw [recoverGroup, getElem?_eq_none (Nat.not_lt.1 hgi), Option.bind_none]

theorem isComplete_iff : a.isComplete = true ↔ ∀ i, i < a.totalPackets → (a.size? i).isSome := by
  rw [isComplete, beq_iff_eq, a.count_eq, ← a.sizes_length, countP_eq_length]
  constructor
  · intro h i hi
    rw [size?, getElem?_eq_getElem hi, Option.join_some]
    exact h _ (getElem_mem hi)
  · intro h s hs
    obtain ⟨i, hi, rfl⟩ := mem_iff_getElem.1 hs
    have hi' := h i hi
    rwa [size?, getElem?_eq_getElem hi, Option.join_some] at hi'

end FrameAssembly

/-! ## What has come -/

def SentFrame.Came (f : SentFrame) (packets : List FramePacket) (i : Nat) : Prop :=
  i < f.totalPackets ∧ f.videoPacket i (f.fragment i) ∈ packets

/-- The parity of a group is among the packets. -/
def SentFrame.ParityCame (f : SentFrame) (packets : List FramePacket) (start : Nat) : Prop :=
  f.HasParity start ∧ f.fecPacket (f.groupParity start) ∈ packets

/-- All fragments are there, or repairable one single loss after another. -/
def SentFrame.Recoverable (f : SentFrame) (packets : List FramePacket) : Prop :=
  ∀ i, i < f.totalPackets → Repairable f.members (f.Came packets) (f.ParityCame packets) i

namespace FrameAssembly

variable {f : SentFrame} {a a' : FrameAssembly} {i gi : Nat} {packets : List FramePacket}

/-- What came has been kept: fragments, what could be repaired from them, and groups. -/
structure Received (f : SentFrame) (packets : List FramePacket) (a : FrameAssembly) : Prop where
  faithful : a.Faithful f
  came : ∀ i, f.Came packets i → (a.size? i).isSome
  sound : ∀ i, (a.size? i).isSome →
    Repairable f.members (f.Came packets) (f.ParityCame packets) i
  parities : ∀ g ∈ a.fecGroups, f.ParityCame packets g.groupStart
  kept : ∀ s, f.ParityCame packets s → ∃ g ∈ a.fecGroups, g.groupStart = s

theorem filter_eq_singleton {l : List Nat} (hl : l.Nodup) {p : Nat → Bool} (hi : i ∈ l)
    (h : ∀ j ∈ l, p j = true ↔ j = i) : l.filter p = [i] := by
  rw [filter_congr fun j hj => (Bool.eq_iff_iff.2 ((h j hj).trans decide_eq_true_iff.symm)),
    filter_eq, count_eq_one_of_mem hl hi]
  rfl

theorem missing_eq_singleton {g : FecGroup} {m : Nat}
    (hcovered : a.covered g = f.members g.groupStart) (h : a.missing g = [m]) : m ∈ f.members g.groupStart ∧
      ∀ i ∈ f.members g.groupStart, i ≠ m → (a.size? i).isSome := by
  rw [missing, hcovered] at h
  constructor
  · have hm : m ∈ [m] := .head _
    rw [← h] at hm
    exact (mem_filter.1 hm).1
  · intro i hi hne
    by_contra hnone
    have hlost : i ∈ [m] := by
      rw [← h]
      refine mem_filter.2 ⟨hi, ?_⟩
      rwa [Option.isNone_iff_eq_none, ← Option.not_isSome_iff_eq_none]
    exact hne (mem_singleton.1 hlost)

theorem Received.recoverGroup (hsmall : f.totalPackets ≤ maxPacketsPerFrame)
    (h : a.Received f packets) (hgroup : a.recoverGroup gi = some a') : a'.Received f packets := by
  obtain ⟨g, m, hg, hunused, hmissing, -, rfl⟩ := recoverGroup_eq_some hgroup
  have hmem := mem_of_getElem? hg
  have hisGroup := h.faithful.groups g hmem
  obtain ⟨hm, hothers⟩ := missing_eq_singleton (covered_eq hsmall h.faithful hisGroup) hmissing
  obtain ⟨hsize, hfragment⟩ := rebuilt_eq hsmall h.faithful hisGroup hm hothers
  rw [hfragment]
  have hlt := lt_of_mem_members hm
  have hstore := h.faithful.store hlt
  have hsize? : ∀ j, ((a.store m (f.fragment m)).size? j).isSome ↔ j = m ∨ (a.size? j).isSome := by
    intro j
    rw [size?_store (h.faithful.total ▸ hlt) (length_fragment_le f m)]
    split
    · rename_i hj
      exact ⟨fun _ => .inl hj.symm, fun _ => rfl⟩
    · rename_i hj
      exact ⟨.inr, fun h => h.resolve_left (Ne.symm hj)⟩
  -- The groups are the same, but that this one is used up.
  have hset : ∀ g' ∈ a.fecGroups.set gi { g with used := true },
      g' = { g with used := true } ∨ g' ∈ a.fecGroups := fun g' hg' =>
    (mem_or_eq_of_mem_set hg').symm
  have hstarts : (a.fecGroups.set gi { g with used := true }).map (·.groupStart) =
      a.fecGroups.map (·.groupStart) := by
    rw [map_set]
    refine ext_getElem? fun j => ?_
    rw [getElem?_set]
    split
    · rename_i hj
      subst hj
      rw [length_map, getElem?_map, hg]
      split
      · rfl
      · rename_i hlt
        exact absurd (List.getElem?_eq_some_iff.1 hg).1 hlt
    · rfl
  refine ⟨⟨hstore.total, hstore.slots, fun g' hg' => ?_, hstarts ▸ h.faithful.starts,
    fun g' hg' hused j hj => (hsize? j).2 ?_⟩, fun j hj => (hsize? j).2 (.inr (h.came j hj)),
    fun j hj => ?_, fun g' hg' => ?_, fun s hs => ?_⟩
  · rcases hset g' hg' with rfl | hg'
    · exact ⟨hisGroup.parity, hisGroup.count, hisGroup.size, hisGroup.payload⟩
    · exact h.faithful.groups g' hg'
  · rcases hset g' hg' with rfl | hg'
    · by_cases hjm : j = m
      · exact .inl hjm
      · exact .inr (hothers j hj hjm)
    · exact .inr (h.faithful.used g' hg' hused j hj)
  · rcases (hsize? j).1 hj with rfl | hj
    · exact .repaired (h.parities g hmem) hm fun k hk hne => h.sound k (hothers k hk hne)
    · exact h.sound j hj
  · rcases hset g' hg' with rfl | hg'
    · exact h.parities g hmem
    · exact h.parities g' hg'
  · obtain ⟨g', hg', rfl⟩ := h.kept s hs
    have hstart := mem_map_of_mem (f := (·.groupStart)) hg'
    rw [← hstarts, mem_map] at hstart
    exact hstart

/-- If no group can rebuild, each has all its fragments or misses two. -/
theorem Received.closed (hsmall : f.totalPackets ≤ maxPacketsPerFrame) (h : a.Received f packets)
    (hstuck : ∀ gi, a.recoverGroup gi = none) {s : Nat} (hs : f.ParityCame packets s)
    (hi : i ∈ f.members s) (hothers : ∀ j ∈ f.members s, j ≠ i → (a.size? j).isSome) :
    (a.size? i).isSome := by
  by_contra hlost
  obtain ⟨g, hg, rfl⟩ := h.kept s hs
  have hisGroup := h.faithful.groups g hg
  obtain ⟨gi, hgi⟩ := mem_iff_getElem?.1 hg
  have hunused : ¬ g.used = true := fun hused => hlost (h.faithful.used g hg hused i hi)
  have hmissing : a.missing g = [i] := by
    rw [missing, covered_eq hsmall h.faithful hisGroup]
    refine filter_eq_singleton (nodup_range' ..) hi fun j hj => ?_
    rw [Option.isNone_iff_eq_none, ← Option.not_isSome_iff_eq_none]
    exact ⟨fun hnone => by_contra fun hne => hnone (hothers j hj hne), fun hji => hji ▸ hlost⟩
  have hsize := (rebuilt_eq hsmall h.faithful hisGroup hi hothers).1
  have hnone := hstuck gi
  rw [FrameAssembly.recoverGroup, hgi, Option.bind_some, if_neg hunused, hmissing] at hnone
  dsimp only at hnone
  rw [if_pos (hsize ▸ length_fragment_le f i)] at hnone
  cases hnone

/-- After recovery the frame is complete exactly if it can be repaired. -/
theorem Received.tryFecRecovery (hsmall : f.totalPackets ≤ maxPacketsPerFrame)
    (h : a.Received f packets) : a.tryFecRecovery.1.Received f packets ∧
      (a.tryFecRecovery.2 = true ↔ f.Recoverable packets) ∧
      (a.tryFecRecovery.2 = true → a.tryFecRecovery.1.isComplete = true) := by
  have hkept : a.tryFecRecovery.1.Received f packets :=
    tryFecRecovery_induct (fun _ _ _ hb => hb.recoverGroup hsmall) h
  have hcomplete : ∀ {b : FrameAssembly}, b.Received f packets → b.isComplete = true →
      f.Recoverable packets := fun hb hdone i hi =>
    hb.sound i (isComplete_iff.1 hdone i (hb.faithful.total ▸ hi))
  have hclosed : ∀ {b : FrameAssembly}, b.Received f packets →
      (∀ gi, b.recoverGroup gi = none) → f.Recoverable packets → b.isComplete = true :=
    fun hb hstuck hall => isComplete_iff.2 fun i hi =>
      (hall i (hb.faithful.total ▸ hi)).of_closed hb.came
        fun s hs j hj hothers => hb.closed hsmall hstuck hs hj hothers
  refine ⟨hkept, ?_⟩
  rw [FrameAssembly.tryFecRecovery] at hkept ⊢
  by_cases hdone : (a.fecGroups.isEmpty || a.isComplete) = true
  · rw [if_pos hdone] at hkept ⊢
    refine ⟨⟨hcomplete h, fun hall => ?_⟩, fun hdone => hdone⟩
    rcases Bool.or_eq_true_iff.1 hdone with hempty | hdone
    · refine hclosed h (fun gi => ?_) hall
      rw [FrameAssembly.recoverGroup, List.isEmpty_iff.1 hempty]
      rfl
    · exact hdone
  · rw [if_neg hdone] at hkept ⊢
    refine ⟨⟨hcomplete hkept, fun hall => ?_⟩, fun hdone => hdone⟩
    rcases @fecLoop_stuck a with hdone | hstuck
    · exact hdone
    · exact hclosed hkept hstuck hall

/-! ## A packet -/

theorem came_append {p : FramePacket} (hp : p = f.videoPacket i (f.fragment i))
    (hsmall : f.totalPackets ≤ maxPacketsPerFrame) (hi : i < f.totalPackets) {j : Nat} :
    f.Came (packets ++ [p]) j ↔ j = i ∨ f.Came packets j := by
  rw [SentFrame.Came, SentFrame.Came, mem_append, mem_singleton, hp]
  constructor
  · rintro ⟨hj, hmem | hsame⟩
    · exact .inr ⟨hj, hmem⟩
    · -- The index of a packet is that of its fragment.
      rw [SentFrame.videoPacket, SentFrame.videoPacket, FramePacket.video.injEq,
        UdpVideoPacket.mk.injEq] at hsame
      have hindex := congrArg UInt16.toNat hsame.2.2.1
      rw [maxPacketsPerFrame] at hsmall
      rw [UInt16.toNat_ofNat', UInt16.toNat_ofNat'] at hindex
      exact .inl (by omega)
  · rintro (rfl | ⟨hj, hmem⟩)
    · exact ⟨hi, .inr rfl⟩
    · exact ⟨hj, .inl hmem⟩

theorem parityCame_append_video {chunk : Bytes} {s : Nat} :
    f.ParityCame (packets ++ [f.videoPacket i chunk]) s ↔ f.ParityCame packets s := by
  rw [SentFrame.ParityCame, SentFrame.ParityCame, mem_append, mem_singleton]
  refine and_congr_right fun _ => ⟨fun h => h.resolve_right fun h => ?_, .inl⟩
  rw [SentFrame.fecPacket, SentFrame.videoPacket] at h
  cases h

theorem repairable_append {p : FramePacket} {j : Nat}
    (h : Repairable f.members (f.Came packets) (f.ParityCame packets) j) :
    Repairable f.members (f.Came (packets ++ [p])) (f.ParityCame (packets ++ [p])) j :=
  h.mono (fun _ hc => ⟨hc.1, mem_append_left _ hc.2⟩)
    fun _ hc => ⟨hc.1, mem_append_left _ hc.2⟩

theorem Received.insert (hsmall : f.totalPackets ≤ maxPacketsPerFrame) (h : a.Received f packets)
    (hi : i < f.totalPackets) (stream : Nat) (now : Instant) :
    (a.insert i (f.fragment i) stream now).Received f
      (packets ++ [f.videoPacket i (f.fragment i)]) := by
  have hlt : i < a.totalPackets := h.faithful.total ▸ hi
  have hsize := length_fragment_le f i
  have hstore := h.faithful.store hi
  have hsize? : ∀ j, ((a.store i (f.fragment i)).size? j).isSome ↔ j = i ∨ (a.size? j).isSome := by
    intro j
    rw [size?_store hlt hsize]
    split
    · rename_i hj
      exact ⟨fun _ => .inl hj.symm, fun _ => rfl⟩
    · rename_i hj
      exact ⟨.inr, fun h => h.resolve_left (Ne.symm hj)⟩
  have hgroups : (a.store i (f.fragment i)).fecGroups = a.fecGroups := by
    rw [store]
    split <;> rfl
  have hcame : ∀ {j}, f.Came (packets ++ [f.videoPacket i (f.fragment i)]) j ↔
      j = i ∨ f.Came packets j := came_append rfl hsmall hi
  rw [FrameAssembly.insert, if_neg (by omega)]
  refine ⟨⟨hstore.total, hstore.slots, hstore.groups, hstore.starts, hstore.used⟩, fun j hj => ?_,
    fun j hj => ?_, fun g hg => ?_, fun s hs => ?_⟩
  · exact (hsize? j).2 ((hcame.1 hj).imp_right (h.came j))
  · rcases (hsize? j).1 hj with rfl | hj
    · exact .there (hcame.2 (.inl rfl))
    · exact repairable_append (h.sound j hj)
  · exact parityCame_append_video.2 (h.parities g (hgroups ▸ hg))
  · obtain ⟨g, hg, hgs⟩ := h.kept s (parityCame_append_video.1 hs)
    exact ⟨g, hgroups.symm ▸ hg, hgs⟩

theorem isGroup_groupOf (hsmall : f.totalPackets ≤ maxPacketsPerFrame) {s : Nat}
    (hs : f.HasParity s) {pkt : UdpFecPacket} (hpkt : .fec pkt = f.fecPacket (f.groupParity s)) :
    f.IsGroup (groupOf pkt) ∧ (groupOf pkt).groupStart = s := by
  rw [SentFrame.fecPacket, FramePacket.fec.injEq] at hpkt
  obtain ⟨hstart, hcount⟩ := f.accumulate_bounds s (f.groupSize s)
  have hmore := hs.2
  have hsize : f.groupSize s ≤ fecGroupSize := Nat.min_le_left _ _
  rw [maxPacketsPerFrame] at hsmall
  rw [fecGroupSize] at hsize
  have hstart' : (groupOf pkt).groupStart = s := by
    rw [groupOf, hpkt, SentFrame.groupParity]
    dsimp only
    rw [hstart, UInt16.toNat_ofNat']
    omega
  refine ⟨⟨hstart'.symm ▸ hs, ?_, ?_, ?_⟩, hstart'⟩
  · rw [hstart', groupOf, hpkt, SentFrame.groupParity]
    dsimp only
    rw [hcount, UInt16.toNat_ofNat']
    omega
  · rw [hstart', groupOf, hpkt]
  · rw [hstart', groupOf, hpkt]

theorem Received.room (hsmall : f.totalPackets ≤ maxPacketsPerFrame) (h : a.Received f packets)
    {s : Nat} (hs : f.HasParity s) (hnew : s ∉ a.fecGroups.map (·.groupStart)) :
    a.fecGroups.length < maxFecGroups := by
  have hstarts : ∀ t ∈ s :: a.fecGroups.map (·.groupStart), f.HasParity t := by
    intro t ht
    rcases mem_cons.1 ht with rfl | ht
    · exact hs
    · obtain ⟨g, hg, rfl⟩ := mem_map.1 ht
      exact (h.parities g hg).1
  have hsub : s :: a.fecGroups.map (·.groupStart) ⊆
      (List.range maxFecGroups).map (· * fecGroupSize) := by
    intro t ht
    obtain ⟨hmod, hmore⟩ := hstarts t ht
    rw [maxPacketsPerFrame] at hsmall
    rw [fecGroupSize] at hmod
    refine mem_map.2 ⟨t / 5, mem_range.2 ?_, ?_⟩
    · rw [maxFecGroups, maxPacketsPerFrame, fecGroupSize]
      omega
    · rw [fecGroupSize]
      omega
  have hle := ((nodup_cons.2 ⟨hnew, h.faithful.starts⟩).subperm hsub).length_le
  rw [length_cons, length_map, length_map, length_range] at hle
  exact hle

theorem Received.addFecGroup (hsmall : f.totalPackets ≤ maxPacketsPerFrame)
    (h : a.Received f packets) {s : Nat} (hs : f.HasParity s) {pkt : UdpFecPacket}
    (hpkt : .fec pkt = f.fecPacket (f.groupParity s)) (stream : Nat) :
    (a.addFecGroup (groupOf pkt) stream).Received f (packets ++ [.fec pkt]) := by
  obtain ⟨hisGroup, hstart⟩ := isGroup_groupOf hsmall hs hpkt
  have hcame : ∀ j, f.Came (packets ++ [.fec pkt]) j ↔ f.Came packets j := by
    intro j
    rw [SentFrame.Came, SentFrame.Came, mem_append, mem_singleton]
    refine and_congr_right fun _ => ⟨fun h => h.resolve_right fun h => ?_, .inl⟩
    rw [SentFrame.videoPacket] at h
    cases h
  have hparity : ∀ t, f.ParityCame (packets ++ [.fec pkt]) t → t = s ∨ f.ParityCame packets t := by
    rintro t ⟨ht, hmem⟩
    rcases mem_append.1 hmem with hmem | hmem
    · exact .inr ⟨ht, hmem⟩
    · have hother := (isGroup_groupOf hsmall ht (mem_singleton.1 hmem).symm).2
      exact .inl (hother.symm.trans hstart)
  have hnew : f.ParityCame (packets ++ [.fec pkt]) s :=
    ⟨hs, mem_append_right _ (mem_singleton.2 hpkt.symm)⟩
  have hold : ∀ t, f.ParityCame packets t → f.ParityCame (packets ++ [.fec pkt]) t :=
    fun t ht => ⟨ht.1, mem_append_left _ ht.2⟩
  -- What the assembly has stays.
  have hkeep : (∃ g ∈ a.fecGroups, g.groupStart = s) → a.Received f (packets ++ [.fec pkt]) := by
    intro hs
    refine ⟨h.faithful, fun j hj => h.came j ((hcame j).1 hj),
      fun j hj => repairable_append (h.sound j hj), fun g hg => hold _ (h.parities g hg),
      fun t ht => ?_⟩
    rcases hparity t ht with rfl | ht
    · exact hs
    · exact h.kept t ht
  rw [FrameAssembly.addFecGroup]
  by_cases hknown : s ∈ a.fecGroups.map (·.groupStart)
  · have hs' := hkeep (mem_map.1 hknown)
    split
    · exact hs'
    · split
      · exact hs'
      · rename_i hany
        obtain ⟨g, hg, hgs⟩ := mem_map.1 hknown
        exact absurd (any_eq_true.2 ⟨g, hg, decide_eq_true (hgs.trans hstart.symm)⟩) hany
  · rw [if_neg (Nat.not_le.2 (h.room hsmall hs hknown)), if_neg]
    · have hgroups : ∀ g ∈ a.fecGroups ++ [groupOf pkt], g ∈ a.fecGroups ∨ g = groupOf pkt :=
        fun g hg => (mem_append.1 hg).imp_right mem_singleton.1
      refine ⟨⟨h.faithful.total, h.faithful.slots, fun g hg => ?_, ?_, fun g hg hused => ?_⟩,
        fun j hj => h.came j ((hcame j).1 hj), fun j hj => repairable_append (h.sound j hj),
        fun g hg => ?_, fun t ht => ?_⟩
      · rcases hgroups g hg with hg | rfl
        · exact h.faithful.groups g hg
        · exact hisGroup
      · rw [map_append]
        refine h.faithful.starts.append (nodup_singleton _) ?_
        rw [map_singleton, hstart]
        exact disjoint_singleton.2 hknown
      · rcases hgroups g hg with hg | rfl
        · exact h.faithful.used g hg hused
        · cases hused
      · rcases hgroups g hg with hg | rfl
        · exact hold _ (h.parities g hg)
        · exact hstart.symm ▸ hnew
      · rcases hparity t ht with rfl | ht
        · exact ⟨_, mem_append_right _ (.head _), hstart⟩
        · obtain ⟨g, hg, hgt⟩ := h.kept t ht
          exact ⟨g, mem_append_left _ hg, hgt⟩
    · intro hany
      obtain ⟨g, hg, hgs⟩ := any_eq_true.1 hany
      exact hknown (mem_map.2 ⟨g, hg, (of_decide_eq_true hgs).trans hstart⟩)

end FrameAssembly

end Decibell.Media
