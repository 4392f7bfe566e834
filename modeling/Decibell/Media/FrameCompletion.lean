import Decibell.Media.FrameIndexing

/-!
# A frame comes back from what arrives of it

A frame is sent as fragments and FEC packets, some of which are lost. The others come in any order,
and some of them more than once.

* `intoData_eq`: the fragments of a complete assembly, moved together, are the data that was sent.
-/

namespace Decibell.Media.FrameAssembly

open Lib List

variable {f : SentFrame} {a : FrameAssembly} {packets : List FramePacket} {i : Nat}

/-! ## The data -/

theorem flatMap_fragment (f : SentFrame) (count : Nat) :
    (List.range count).flatMap f.fragment = f.data.take (count * udpMaxPayload) := by
  induction count with
  | zero => rw [range_zero, flatMap_nil, Nat.zero_mul, take_zero]
  | succ count ih =>
    rw [range_succ, flatMap_append, ih, flatMap_singleton, Nat.add_mul, Nat.one_mul,
      take_add]
    rfl

/-- The slots are moved down behind what is written; those to come lie behind it, unharmed. -/
theorem compact_spec {count first write : Nat} {buf : Bytes} (hbuf : buf.length = a.buf.length)
    (hcount : first + count ≤ a.totalPackets) (hwrite : write ≤ start first)
    (hsizes : ∀ i, i < a.totalPackets → a.size? i = some (f.fragment i).length)
    (hslots : ∀ i, first ≤ i → i < a.totalPackets →
      (buf.drop (start i)).take (f.fragment i).length = f.fragment i) :
    let out := a.compact buf write (List.range' first count)
    out.1.take out.2 = buf.take write ++ (List.range' first count).flatMap f.fragment := by
  induction count generalizing first write buf with
  | zero => rw [range'_zero, flatMap_nil, append_nil]; rfl
  | succ count ih =>
    have hi : first < a.totalPackets := by omega
    have hsize := length_fragment_le f first
    have hslot := a.start_add_le hi hsize
    have hnext : start (first + 1) = start first + udpMaxPayload := by
      rw [start, start, Nat.add_mul, Nat.one_mul]
    have hfits : write + (f.fragment first).length ≤ buf.length := by omega
    rw [range'_succ, compact, hsizes first hi]
    dsimp only
    rw [hslots first (Nat.le_refl _) hi]
    refine (ih ((length_writeAt hfits).trans hbuf) (by omega) (by omega)
      fun i hfirst hi => ?_).trans ?_
    · have hstart : start (first + 1) ≤ start i := Nat.mul_le_mul_right _ hfirst
      rw [read_writeAt_of_apart hfits (.inr (by omega))]
      exact hslots i (Nat.le_of_succ_le hfirst) hi
    · have hwritten : (writeAt buf write (f.fragment first)).take
          (write + (f.fragment first).length) = buf.take write ++ f.fragment first := by
        rw [writeAt, take_left']
        rw [length_append, length_take]
        omega
      rw [hwritten, flatMap_cons, append_assoc]

theorem intoData_eq (h : a.Faithful f) (hdone : a.isComplete = true) : a.intoData = f.data := by
  have hfilled : ∀ i, i < a.totalPackets → a.size? i = some (f.fragment i).length ∧
      (a.buf.drop (start i)).take (f.fragment i).length = f.fragment i := by
    intro i hi
    obtain ⟨size, hsize⟩ := Option.isSome_iff_exists.1 (isComplete_iff.1 hdone i hi)
    obtain ⟨rfl, hslot⟩ := h.slots i size hsize
    exact ⟨hsize, hslot⟩
  have hout := compact_spec rfl (Nat.le_of_eq (Nat.zero_add _)) (Nat.zero_le _)
    (fun i hi => (hfilled i hi).1) fun i _ hi => (hfilled i hi).2
  rw [intoData, range_eq_range']
  refine hout.trans ?_
  rw [take_zero, nil_append, ← range_eq_range', flatMap_fragment, h.total]
  exact take_of_length_le (SentFrame.totalPackets_le_iff.1 (Nat.le_refl _))

/-! ## What can be repaired -/

theorem recoverable_mono {packets' : List FramePacket} (hsub : packets ⊆ packets')
    (h : f.Recoverable packets) : f.Recoverable packets' := fun i hi =>
  (h i hi).mono (fun _ hc => ⟨hc.1, hsub hc.2⟩) fun _ hc => ⟨hc.1, hsub hc.2⟩

theorem not_recoverable_nil (h : 0 < f.totalPackets) : ¬ f.Recoverable [] := by
  intro hall
  cases hall 0 h with
  | there hcame => cases hcame.2
  | repaired hparity => cases hparity.2

/-! ## A packet of the frame -/

/-- The frame, begun by the first packet, is not to be repaired yet. -/
def Awaits (f : SentFrame) (packets : List FramePacket) (a : Option FrameAssembly) : Prop :=
  ¬ f.Recoverable packets ∧
    match a with
    | none => packets = []
    | some frame => frame.Received f packets

/-- A frame in progress, with whether it is complete. -/
def Tried (f : SentFrame) (packets : List FramePacket) (tried : FrameAssembly × Bool) : Prop :=
  tried.1.Received f packets ∧ (tried.2 = true ↔ f.Recoverable packets) ∧
    (tried.2 = true → tried.1.isComplete = true)

theorem received_new {isKeyframe afterSilence : Bool} {codec : UInt8} {now : Instant} :
    (new f.totalPackets isKeyframe codec afterSilence now).Received f [] := by
  have hnone : ∀ i, (new f.totalPackets isKeyframe codec afterSilence now).size? i = none := by
    intro i
    rw [size?, new, getElem?_replicate]
    split <;> rfl
  refine ⟨⟨rfl, fun i size hi => ?_, fun g hg => ?_, nodup_nil, fun g hg => ?_⟩,
    fun i hi => ?_, fun i hi => ?_, fun g hg => ?_, fun s hs => ?_⟩
  · rw [hnone] at hi
    cases hi
  · cases hg
  · cases hg
  · cases hi.2
  · rw [hnone] at hi
    cases hi
  · cases hg
  · cases hs.2

theorem tried_takeVideo (hsmall : f.totalPackets ≤ maxPacketsPerFrame) {a : Option FrameAssembly}
    (h : Awaits f packets a) (hi : i < f.totalPackets) {pkt : UdpVideoPacket}
    (hpkt : .video pkt = f.videoPacket i (f.fragment i)) (now : Instant) (afterSilence : Bool) :
    Tried f (packets ++ [.video pkt]) (takeVideo a pkt now afterSilence) := by
  obtain rfl := FramePacket.video.inj hpkt
  have hsmall' := hsmall
  rw [maxPacketsPerFrame] at hsmall'
  have hindex : (UInt16.ofNat i).toNat = i := by
    rw [UInt16.toNat_ofNat']
    omega
  have htotal : (UInt16.ofNat f.totalPackets).toNat = f.totalPackets := by
    rw [UInt16.toNat_ofNat']
    omega
  have hbegun : (a.getD (.new f.totalPackets f.isKeyframe f.codec afterSilence now)).Received f
      packets := by
    cases a with
    | none =>
      obtain rfl := h.2
      exact received_new
    | some frame => exact h.2
  have hinsert := hbegun.insert hsmall hi 0 now
  rw [takeVideo]
  dsimp only
  rw [hindex, htotal]
  split
  · rename_i hdone
    refine ⟨hinsert, ⟨fun _ j hj => ?_, fun _ => rfl⟩, fun _ => hdone⟩
    exact hinsert.sound j (isComplete_iff.1 hdone j (by rw [hinsert.faithful.total]; exact hj))
  · exact hinsert.tryFecRecovery hsmall

theorem settle_spec {tried : FrameAssembly × Bool} (h : Tried f packets tried) :
    (settle tried = (none, some f.data) ∧ f.Recoverable packets) ∨
      ∃ frame, settle tried = (some frame, none) ∧ Awaits f packets (some frame) := by
  obtain ⟨hreceived, hiff, hdone⟩ := h
  rw [settle]
  split
  · rename_i hcomplete
    exact .inl ⟨by rw [intoData_eq hreceived.faithful (hdone hcomplete)], hiff.1 hcomplete⟩
  · rename_i hincomplete
    exact .inr ⟨_, rfl, fun hall => hincomplete (hiff.2 hall), hreceived⟩

theorem malformed_of_fragment (hsmall : f.totalPackets ≤ maxPacketsPerFrame) {i : Nat}
    (hi : i < f.totalPackets) {pkt : UdpVideoPacket}
    (hpkt : .video pkt = f.videoPacket i (f.fragment i)) : VideoReceiver.malformed pkt = false := by
  obtain rfl := FramePacket.video.inj hpkt
  rw [maxPacketsPerFrame] at hsmall
  rw [VideoReceiver.malformed, UInt16.toNat_ofNat', UInt16.toNat_ofNat', maxPacketsPerFrame]
  simp only [Bool.or_eq_false_iff, decide_eq_false_iff_not]
  omega

/-- A packet completes the frame exactly if it can be repaired with it. -/
theorem onPacket_spec (hsmall : f.totalPackets ≤ maxPacketsPerFrame) {a : Option FrameAssembly}
    (h : Awaits f packets a) {p : FramePacket} (hp : p ∈ f.fragmentAndSend)
    (hfirst : a = none → ∃ pkt, p = .video pkt) (now : Instant) (afterSilence : Bool) :
    (onPacket a now afterSilence p = (none, some f.data) ∧ f.Recoverable (packets ++ [p])) ∨
      ∃ frame, onPacket a now afterSilence p = (some frame, none) ∧
        Awaits f (packets ++ [p]) (some frame) := by
  rcases SentFrame.mem_fragmentAndSend.1 hp with ⟨i, hi, hpkt⟩ | ⟨s, hs, hpkt⟩
  · cases p with
    | fec => cases hpkt
    | video pkt =>
      rw [onPacket, malformed_of_fragment hsmall hi hpkt, if_neg Bool.false_ne_true]
      exact settle_spec (tried_takeVideo hsmall h hi hpkt now afterSilence)
  · cases p with
    | video => cases hpkt
    | fec pkt =>
      cases a with
      | none =>
        obtain ⟨pkt', hpkt'⟩ := hfirst rfl
        cases hpkt'
      | some frame =>
        exact settle_spec ((h.2.addFecGroup hsmall hs hpkt pkt.stream).tryFecRecovery hsmall)

/-! ## Runs of datagrams -/

theorem firstFrame_spec (hsmall : f.totalPackets ≤ maxPacketsPerFrame) {encrypted : Bool}
    {rest : List FramePacket} {arrivals : List Arrival} {a : Option FrameAssembly}
    (h : Awaits f packets a) (hrest : ∀ p ∈ rest, p ∈ f.fragmentAndSend)
    (hfirst : a = none → ∀ p ∈ rest.head?, ∃ pkt, p = .video pkt)
    (harrivals : arrivals.map (·.datagram) = rest.map (·.toBytes encrypted)) :
    match firstFrame encrypted a packets.length arrivals with
    | some (data, k) =>
      data = f.data ∧ k < packets.length + rest.length ∧
        f.Recoverable ((packets ++ rest).take (k + 1)) ∧
        ¬ f.Recoverable ((packets ++ rest).take k)
    | none => ¬ f.Recoverable (packets ++ rest) := by
  induction rest generalizing packets a arrivals with
  | nil =>
    obtain rfl := map_eq_nil_iff.1 harrivals
    rw [firstFrame, append_nil]
    exact h.1
  | cons p rest ih =>
    obtain ⟨d, arrivals, rfl, hd, harrivals⟩ := map_eq_cons_iff.1 harrivals
    have hp := hrest p (.head _)
    have hparse : onDatagram encrypted a d = onPacket a d.now d.afterSilence p := by
      rw [onDatagram, hd, parseDatagram_toBytes (SentFrame.wellFormed_of_mem hp)]
    have hnow : (packets ++ p :: rest).take (packets.length + 1) = packets ++ [p] := by
      rw [take_length_add_append]
      rfl
    rw [firstFrame, hparse]
    rcases onPacket_spec hsmall h hp (fun ha => hfirst ha p rfl) d.now d.afterSilence with
      ⟨hpacket, hall⟩ | ⟨frame, hpacket, hnext⟩
    · rw [hpacket]
      refine ⟨rfl, ?_, hnow.symm ▸ hall, ?_⟩
      · rw [length_cons]
        omega
      · rw [take_left]
        exact h.1
    · rw [hpacket]
      have hlater := ih hnext (fun q hq => hrest q (.tail _ hq)) (fun ha => by cases ha) harrivals
      rw [length_append, length_singleton, append_assoc, singleton_append]
        at hlater
      rw [length_cons, Nat.add_comm rest.length, ← Nat.add_assoc]
      exact hlater

/-- The datagrams of a frame, in any order and number but a fragment first, complete the frame with
    the first with which the missing fragments can be repaired, group by group, and with the data
    sent; never without one. After any datagrams no access of another is outside a buffer. -/
theorem frame_recovered (hsmall : f.totalPackets ≤ maxPacketsPerFrame) {encrypted : Bool}
    {first : UdpVideoPacket} {rest : List FramePacket} {arrivals : List Arrival}
    (hsent : ∀ p ∈ .video first :: rest, p ∈ f.fragmentAndSend)
    (harrivals : arrivals.map (·.datagram) = (.video first :: rest).map (·.toBytes encrypted)) :
    (∀ data k, firstFrame encrypted none 0 arrivals = some (data, k) ↔
      data = f.data ∧ k < arrivals.length ∧
        f.Recoverable ((.video first :: rest).take (k + 1)) ∧
        ¬ f.Recoverable ((.video first :: rest).take k)) ∧
    (firstFrame encrypted none 0 arrivals = none ↔ ¬ f.Recoverable (.video first :: rest)) ∧
    ∀ others d, onDatagramChecked encrypted (reassemble encrypted others) d =
      some (onDatagram encrypted (reassemble encrypted others) d) := by
  have hpos : 0 < f.totalPackets := by
    rcases SentFrame.mem_fragmentAndSend.1 (hsent _ (.head _)) with ⟨i, hi, -⟩ | ⟨s, hs, -⟩
    · exact Nat.zero_lt_of_lt hi
    · exact Nat.zero_lt_of_lt hs.2
  have hawaits : Awaits f [] none := ⟨not_recoverable_nil hpos, rfl⟩
  have hrun := firstFrame_spec hsmall hawaits hsent
    (fun _ p hp => ⟨first, (Option.some.inj hp).symm⟩) harrivals
  have hlength : arrivals.length = (FramePacket.video first :: rest).length := by
    rw [← List.length_map (·.datagram), harrivals, List.length_map]
  rw [List.nil_append, List.length_nil, Nat.zero_add, ← hlength] at hrun
  -- What can be repaired from the first packets can be repaired from more of them.
  have hmore : ∀ {k k' : Nat}, k ≤ k' → f.Recoverable ((.video first :: rest).take k) →
      f.Recoverable ((.video first :: rest).take k') := fun hk =>
    recoverable_mono (List.take_subset_take_left _ hk)
  have hall : ∀ {k : Nat}, f.Recoverable ((.video first :: rest).take k) →
      f.Recoverable (.video first :: rest) := recoverable_mono (List.take_subset _ _)
  cases hframe : firstFrame encrypted none 0 arrivals with
  | none =>
    rw [hframe] at hrun
    refine ⟨fun data k => ⟨fun h => (by cases h), fun h => absurd (hall h.2.2.1) hrun⟩,
      ⟨fun _ => hrun, fun _ => rfl⟩, onDatagramChecked_eq⟩
  | some out =>
    obtain ⟨data, k⟩ := out
    rw [hframe] at hrun
    obtain ⟨hdata, hk, hrec, hnot⟩ := hrun
    refine ⟨fun data' k' => ⟨fun h => ?_, fun ⟨hdata', hk', hrec', hnot'⟩ => ?_⟩,
      ⟨fun h => (by cases h), fun h => absurd (hall hrec) h⟩, onDatagramChecked_eq⟩
    · cases h
      exact ⟨hdata, hk, hrec, hnot⟩
    · have hle : k ≤ k' := by
        by_contra hlt
        exact hnot (hmore (by omega) hrec')
      have hge : k' ≤ k := by
        by_contra hlt
        exact hnot' (hmore (by omega) hrec)
      rw [hdata, hdata', Nat.le_antisymm hle hge]

/-- A frame of a whole fragment and a short one. -/
def twoFragments : SentFrame where
  senderId := List.replicate senderIdSize 0
  frameId := 7
  isKeyframe := true
  codec := 1
  data := List.replicate udpMaxPayload 1 ++ [2, 3]
  id_length := List.length_replicate

/-- The first is lost, and rebuilt from the second and the parity. -/
theorem frame_recovered_of_loss :
    let packets := [twoFragments.videoPacket 1 (twoFragments.fragment 1),
      twoFragments.fecPacket (twoFragments.groupParity 0)]
    firstFrame false none 0 (packets.map fun p => ⟨0, false, p.toBytes false⟩) =
        some (twoFragments.data, 1) ∧
      twoFragments.Recoverable packets ∧ ¬ twoFragments.Recoverable (packets.take 1) := by
  intro packets
  have hsent : ∀ p ∈ packets, p ∈ twoFragments.fragmentAndSend := by
    intro p hp
    rcases List.mem_cons.1 hp with rfl | hp
    · exact SentFrame.mem_fragmentAndSend.2 (.inl ⟨1, by decide +kernel, rfl⟩)
    · rw [List.mem_singleton.1 hp]
      exact SentFrame.mem_fragmentAndSend.2 (.inr ⟨0, ⟨rfl, by decide +kernel⟩, rfl⟩)
  have hrun : firstFrame false none 0 (packets.map fun p => ⟨0, false, p.toBytes false⟩) =
      some (twoFragments.data, 1) := by decide +kernel
  have hsmall : twoFragments.totalPackets ≤ maxPacketsPerFrame := by decide +kernel
  obtain ⟨-, -, hall, hnot⟩ := ((frame_recovered hsmall hsent rfl).1 twoFragments.data 1).1 hrun
  exact ⟨hrun, hall, hnot⟩

end Decibell.Media.FrameAssembly
