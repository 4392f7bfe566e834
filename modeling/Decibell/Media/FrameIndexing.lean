import Decibell.Media.FrameRecovery

/-!
# No datagram makes the receiver index outside a buffer

Groups, indices and sizes come off untrusted datagrams, and an access outside a buffer would stop
the program. The functions of an assembly are here once more, with each of their accesses checked:
`none` stands for a program that has stopped.
-/

namespace Decibell.Media.FrameAssembly

open Lib List Option

/-! ## Accesses -/

/-- `&bytes[start..start + size]`. -/
def slice? (bytes : Bytes) (start size : Nat) : Option Bytes :=
  if start + size ≤ bytes.length then some ((bytes.drop start).take size) else none

/-- `bytes[start..start + source.len()].copy_from_slice(source)`. -/
def copyInto? (bytes : Bytes) (start : Nat) (source : Bytes) : Option Bytes :=
  if start + source.length ≤ bytes.length then some (writeAt bytes start source) else none

/-- `recovered[j] ^= b` for each byte of a packet. -/
def xorInto? (recovered bytes : Bytes) : Option Bytes :=
  if bytes.length ≤ recovered.length then some (xorInto recovered bytes) else none

variable (a : FrameAssembly)

/-- `sizes[i]`. -/
def slot? (i : Nat) : Option (Option Nat) := a.sizes[i]?

/-! ## The functions of an assembly -/

/-- A packet is written to the buffer, and its size to its slot. -/
def storeChecked (index : Nat) (payload : Bytes) : Option FrameAssembly := do
  let _ ← copyInto? a.buf (start index) payload
  let _ ← a.slot? index
  return a.store index payload

def insertChecked (index : Nat) (payload : Bytes) (stream : Nat) (now : Instant) :
    Option FrameAssembly :=
  if a.totalPackets ≤ index ∨ udpMaxPayload < payload.length then some a
  else do
    let _ ← a.storeChecked index payload
    return a.insert index payload stream now

/-- The empty slots among some. -/
def emptyChecked : List Nat → Option (List Nat)
  | [] => some []
  | i :: rest => do
    let size ← a.slot? i
    let empty ← emptyChecked rest
    return if size.isNone then i :: empty else empty

/-- A group's other packets XORed into its payload and size. -/
def rebuiltChecked : List Nat → Bytes × Nat → Option (Bytes × Nat)
  | [], recovered => some recovered
  | i :: rest, recovered => do
    match ← a.slot? i with
    | some size =>
      let bytes ← slice? a.buf (start i) size
      let payload ← xorInto? recovered.1 bytes
      rebuiltChecked rest (payload, recovered.2 ^^^ size)
    | none => rebuiltChecked rest recovered

/-- What a group does; `some none` rebuilds nothing. -/
def recoverGroupChecked (gi : Nat) : Option (Option FrameAssembly) := do
  let g ← a.fecGroups[gi]?
  if g.used then return none
  else
    match ← a.emptyChecked (a.covered g) with
    | [missingIdx] =>
      let recovered ← a.rebuiltChecked ((a.covered g).filter (· ≠ missingIdx))
        (g.payload, g.payloadSizeXor)
      if recovered.2 ≤ udpMaxPayload then
        let bytes ← slice? recovered.1 0 recovered.2
        let stored ← a.storeChecked missingIdx bytes
        return some { stored with fecGroups := a.fecGroups.set gi { g with used := true } }
      else return none
    | _ => return none

def fecPassChecked : List Nat → FrameAssembly → Bool → Option (FrameAssembly × Bool)
  | [], a, progressed => some (a, progressed)
  | gi :: rest, a, progressed => do
    match ← a.recoverGroupChecked gi with
    | none => fecPassChecked rest a progressed
    | some a' => if a'.isComplete then return (a', true) else fecPassChecked rest a' true

/-- The passes, of which there are no more than `passes`. -/
def fecLoopChecked : Nat → FrameAssembly → Option FrameAssembly
  | 0, _ => none
  | passes + 1, a => do
    let pass ← fecPassChecked (List.range a.fecGroups.length) a false
    if pass.1.isComplete then return pass.1
    else if pass.2 then fecLoopChecked passes pass.1
    else return pass.1

/-- Each pass but the last uses a group up. -/
def tryFecRecoveryChecked : Option (FrameAssembly × Bool) :=
  if a.fecGroups.isEmpty || a.isComplete then some (a, a.isComplete)
  else do
    let recovered ← fecLoopChecked (a.fecGroups.length + 1) a
    return (recovered, recovered.isComplete)

/-- `copy_within` reads and writes in the buffer. -/
def compactChecked (buf : Bytes) (write : Nat) : List Nat → Option (Bytes × Nat)
  | [] => some (buf, write)
  | i :: rest => do
    match ← a.slot? i with
    | some size =>
      let bytes ← slice? buf (start i) size
      let buf ← copyInto? buf write bytes
      compactChecked buf (write + size) rest
    | none => compactChecked buf write rest

def intoDataChecked : Option Bytes := do
  let compacted ← a.compactChecked a.buf 0 (List.range a.totalPackets)
  return compacted.1.take compacted.2

def takeVideoChecked (a : Option FrameAssembly) (pkt : UdpVideoPacket) (now : Instant)
    (afterSilence : Bool) : Option (FrameAssembly × Bool) := do
  let frame := a.getD (.new pkt.totalPackets.toNat pkt.isKeyframe pkt.codec afterSilence now)
  let frame ← frame.insertChecked pkt.packetIndex.toNat pkt.payload pkt.stream now
  if frame.isComplete then return (frame, true) else frame.tryFecRecoveryChecked

def takeFecChecked (frame : FrameAssembly) (pkt : UdpFecPacket) : Option (FrameAssembly × Bool) :=
  (frame.addFecGroup (groupOf pkt) pkt.stream).tryFecRecoveryChecked

def settleChecked (tried : FrameAssembly × Bool) : Option (Option FrameAssembly × Option Bytes) :=
  if tried.2 then do
    let data ← tried.1.intoDataChecked
    return (none, some data)
  else some (some tried.1, none)

def onPacketChecked (a : Option FrameAssembly) (now : Instant) (afterSilence : Bool) :
    FramePacket → Option (Option FrameAssembly × Option Bytes)
  | .video pkt =>
    if VideoReceiver.malformed pkt then some (a, none)
    else do settleChecked (← takeVideoChecked a pkt now afterSilence)
  | .fec pkt =>
    match a with
    | none => some (none, none)
    | some frame => do settleChecked (← frame.takeFecChecked pkt)

def onDatagramChecked (encrypted : Bool) (a : Option FrameAssembly) (d : Arrival) :
    Option (Option FrameAssembly × Option Bytes) :=
  match parseDatagram encrypted d.datagram with
  | none => some (a, none)
  | some p => onPacketChecked a d.now d.afterSilence p

def reassemble (encrypted : Bool) (arrivals : List Arrival) : Option FrameAssembly :=
  arrivals.foldl (fun a d => (onDatagram encrypted a d).1) none

/-! ## Why the accesses are in range -/

/-- Sizes are those of slots, and groups have whole payloads. -/
structure Indexable (a : FrameAssembly) : Prop where
  sizes : ∀ i size, a.size? i = some size → size ≤ udpMaxPayload
  payloads : ∀ g ∈ a.fecGroups, g.payload.length = udpMaxPayload

variable {a} {a' : FrameAssembly} {i gi : Nat} {payload : Bytes} {l : List Nat}

theorem slot?_eq (hi : i < a.totalPackets) : a.slot? i = some (a.size? i) := by
  have hi' : i < a.sizes.length := a.sizes_length.symm ▸ hi
  rw [slot?, size?, getElem?_eq_getElem hi', join_some]

theorem slice?_eq {bytes : Bytes} {place size : Nat} (h : place + size ≤ bytes.length) :
    slice? bytes place size = some ((bytes.drop place).take size) := if_pos h

theorem copyInto?_eq {bytes source : Bytes} {place : Nat}
    (h : place + source.length ≤ bytes.length) :
    copyInto? bytes place source = some (writeAt bytes place source) := if_pos h

theorem storeChecked_eq (hi : i < a.totalPackets) (hpayload : payload.length ≤ udpMaxPayload) :
    a.storeChecked i payload = some (a.store i payload) := by
  rw [storeChecked, copyInto?_eq (a.start_add_le hi hpayload), bind_eq_bind,
    bind_some, slot?_eq hi]
  rfl

theorem insertChecked_eq {stream : Nat} {now : Instant} :
    a.insertChecked i payload stream now = some (a.insert i payload stream now) := by
  rw [insertChecked]
  split
  · rename_i hdropped
    rw [insert, if_pos hdropped]
  · rename_i htaken
    rw [storeChecked_eq (by omega) (by omega)]
    rfl

theorem emptyChecked_eq (hl : ∀ i ∈ l, i < a.totalPackets) :
    a.emptyChecked l = some (l.filter fun i => (a.size? i).isNone) := by
  induction l with
  | nil => rfl
  | cons i l ih =>
    rw [emptyChecked, slot?_eq (hl i (.head _)), bind_eq_bind, bind_some,
      ih fun j hj => hl j (.tail _ hj), filter_cons]
    split <;> rfl

theorem lt_of_mem_covered {g : FecGroup} (h : i ∈ a.covered g) : i < a.totalPackets := by
  have := mem_range'_1.1 h
  omega

theorem rebuiltChecked_eq (h : a.Indexable) (hl : ∀ i ∈ l, i < a.totalPackets)
    {recovered : Bytes × Nat} (hfull : recovered.1.length = udpMaxPayload) :
    a.rebuiltChecked l recovered = some (l.foldl
      (fun recovered i =>
        match a.size? i with
        | some size =>
          (xorInto recovered.1 ((a.buf.drop (start i)).take size), recovered.2 ^^^ size)
        | none => recovered)
      recovered) := by
  induction l generalizing recovered with
  | nil => rfl
  | cons i l ih =>
    have hi := hl i (.head _)
    have hl' := fun j hj => hl j (.tail _ hj)
    rw [rebuiltChecked, slot?_eq hi, bind_eq_bind, bind_some, foldl_cons]
    cases hsize : a.size? i with
    | none => exact ih hl' hfull
    | some size =>
      have hle := h.sizes i size hsize
      have hslot := a.start_add_le hi (Nat.le_of_eq (length_replicate (a := (0 : UInt8))))
      rw [length_replicate] at hslot
      have hslice : start i + size ≤ a.buf.length := by omega
      have hxor : ((a.buf.drop (start i)).take size).length ≤ recovered.1.length := by
        rw [length_take, hfull]
        omega
      dsimp only
      rw [slice?_eq hslice, bind_eq_bind, bind_some, xorInto?, if_pos hxor,
        bind_some]
      exact ih hl' ((length_xorInto _ _).trans hfull)

theorem Indexable.store (h : a.Indexable) (hi : i < a.totalPackets)
    (hpayload : payload.length ≤ udpMaxPayload) : (a.store i payload).Indexable := by
  refine ⟨fun j size hj => ?_, ?_⟩
  · rw [size?_store hi hpayload] at hj
    split at hj
    · cases hj
      exact hpayload
    · exact h.sizes j size hj
  · rw [FrameAssembly.store]
    split <;> exact h.payloads

theorem Indexable.insert (h : a.Indexable) (stream : Nat) (now : Instant) :
    (a.insert i payload stream now).Indexable := by
  rw [FrameAssembly.insert]
  split
  · exact h
  · have hstore : (a.store i payload).Indexable := h.store (by omega) (by omega)
    exact ⟨hstore.sizes, hstore.payloads⟩

theorem Indexable.addFecGroup (h : a.Indexable) (pkt : UdpFecPacket) :
    (a.addFecGroup (groupOf pkt) pkt.stream).Indexable := by
  rw [FrameAssembly.addFecGroup]
  split
  · exact h
  · split
    · exact h
    · refine ⟨h.sizes, fun g hg => ?_⟩
      rcases mem_append.1 hg with hg | hg
      · exact h.payloads g hg
      · rw [mem_singleton.1 hg]
        exact pkt.full

theorem Indexable.recoverGroup (h : a.Indexable) (hgroup : a.recoverGroup gi = some a') :
    a'.Indexable ∧ a'.fecGroups.length = a.fecGroups.length := by
  obtain ⟨g, m, hg, -, hmissing, hsize, rfl⟩ := recoverGroup_eq_some hgroup
  have hm : m ∈ a.missing g := hmissing ▸ .head _
  have hcovered := lt_of_mem_covered (mem_filter.1 hm).1
  have hstore := h.store hcovered ((length_take_le _ (a.rebuilt g m).1).trans hsize)
  refine ⟨⟨hstore.sizes, fun g' hg' => ?_⟩, length_set⟩
  rcases mem_or_eq_of_mem_set hg' with hg' | rfl
  · exact h.payloads g' hg'
  · exact h.payloads g (mem_of_getElem? hg)

theorem length_rebuilt (h : a.Indexable) {g : FecGroup} (hg : g ∈ a.fecGroups) (m : Nat) :
    (a.rebuilt g m).1.length = udpMaxPayload := by
  rw [rebuilt]
  refine List.foldlRecOn (motive := fun r : Bytes × Nat => r.1.length = udpMaxPayload) _ _
    (h.payloads g hg) fun recovered hrecovered j _ => ?_
  split
  · exact (length_xorInto _ _).trans hrecovered
  · exact hrecovered

theorem recoverGroupChecked_eq (h : a.Indexable) (hgi : gi < a.fecGroups.length) :
    a.recoverGroupChecked gi = some (a.recoverGroup gi) := by
  have hg := getElem?_eq_getElem hgi
  have hmem := getElem_mem hgi
  generalize a.fecGroups[gi] = g at hg hmem
  rw [recoverGroupChecked, FrameAssembly.recoverGroup, hg, bind_eq_bind, bind_some,
    bind_some]
  split
  · rfl
  · rw [emptyChecked_eq fun i hi => lt_of_mem_covered hi, ← missing, bind_eq_bind,
      bind_some]
    cases hmissing : a.missing g with
    | nil => rfl
    | cons m rest =>
      cases rest with
      | cons => rfl
      | nil =>
        have hm : m ∈ a.missing g := hmissing ▸ .head _
        have hcovered := lt_of_mem_covered (mem_filter.1 hm).1
        have hothers : ∀ i ∈ (a.covered g).filter (· ≠ m), i < a.totalPackets :=
          fun i hi => lt_of_mem_covered (mem_filter.1 hi).1
        have hrebuilt : a.rebuiltChecked ((a.covered g).filter (· ≠ m))
            (g.payload, g.payloadSizeXor) = some (a.rebuilt g m) :=
          rebuiltChecked_eq h hothers (h.payloads g hmem)
        dsimp only
        rw [hrebuilt, bind_eq_bind, bind_some]
        split
        · rename_i hsize
          have hslice : 0 + (a.rebuilt g m).2 ≤ (a.rebuilt g m).1.length := by
            rw [length_rebuilt h hmem]
            omega
          rw [slice?_eq hslice, bind_eq_bind, bind_some, drop_zero,
            storeChecked_eq hcovered ((length_take_le _ _).trans hsize)]
          rfl
        · rfl

theorem fecPassChecked_eq (h : a.Indexable) (hl : ∀ gi ∈ l, gi < a.fecGroups.length)
    {progressed : Bool} : fecPassChecked l a progressed = some (fecPass l a progressed) := by
  induction l generalizing a progressed with
  | nil => rfl
  | cons gi l ih =>
    have hl' := fun gj hgj => hl gj (.tail _ hgj)
    rw [fecPassChecked, fecPass, recoverGroupChecked_eq h (hl gi (.head _)), bind_eq_bind,
      bind_some]
    cases hgroup : a.recoverGroup gi with
    | none => exact ih h hl'
    | some a' =>
      obtain ⟨h', hlength⟩ := h.recoverGroup hgroup
      dsimp only
      split
      · rfl
      · exact ih h' (hlength.symm ▸ hl')

theorem fecLoopChecked_eq {passes : Nat} (h : a.Indexable) (hpasses : a.unused < passes) :
    fecLoopChecked passes a = some a.fecLoop := by
  induction passes generalizing a with
  | zero => exact absurd hpasses (Nat.not_lt_zero _)
  | succ passes ih =>
    have hpass := @fecPassChecked_eq a _ h (fun gi hgi => mem_range.1 hgi) false
    rw [fecLoopChecked, fecLoop, hpass, bind_eq_bind, bind_some]
    dsimp only
    split
    · rfl
    · by_cases hprogressed : (fecPass (List.range a.fecGroups.length) a false).2 = true
      · rw [if_pos hprogressed, dif_pos hprogressed]
        have hless := unused_fecPass.2 hprogressed rfl
        exact ih (fecPass_induct (fun _ _ _ hb hgroup => (hb.recoverGroup hgroup).1) h) (by omega)
      · rw [if_neg hprogressed, dif_neg hprogressed]
        rfl

theorem tryFecRecoveryChecked_eq (h : a.Indexable) :
    a.tryFecRecoveryChecked = some a.tryFecRecovery := by
  rw [tryFecRecoveryChecked, tryFecRecovery]
  split
  · rfl
  · have hunused : a.unused ≤ a.fecGroups.length := countP_le_length
    rw [fecLoopChecked_eq h (Nat.lt_succ_of_le hunused)]
    rfl

theorem Indexable.tryFecRecovery (h : a.Indexable) : a.tryFecRecovery.1.Indexable :=
  tryFecRecovery_induct (fun _ _ _ hb hgroup => (hb.recoverGroup hgroup).1) h

/-- The slots are moved down: what is written ends before the next begins. -/
theorem compactChecked_eq (h : a.Indexable) {count first write : Nat} {buf : Bytes}
    (hcount : first + count ≤ a.totalPackets) (hbuf : buf.length = a.buf.length)
    (hwrite : write ≤ start first) :
    a.compactChecked buf write (List.range' first count) =
      some (a.compact buf write (List.range' first count)) := by
  induction count generalizing first write buf with
  | zero => rfl
  | succ count ih =>
    have hi : first < a.totalPackets := by omega
    have hnext : start (first + 1) = start first + udpMaxPayload := by
      rw [start, start, Nat.add_mul, Nat.one_mul]
    rw [range'_succ, compactChecked, compact, slot?_eq hi, bind_eq_bind,
      bind_some]
    cases hsize : a.size? first with
    | none => exact ih (by omega) hbuf (by omega)
    | some size =>
      have hle := h.sizes first size hsize
      have hslot := a.start_add_le hi (Nat.le_of_eq (length_replicate (a := (0 : UInt8))))
      rw [length_replicate, ← hbuf] at hslot
      have hslice : start first + size ≤ buf.length := by omega
      have hcopy : write + ((buf.drop (start first)).take size).length ≤ buf.length := by
        rw [length_take]
        omega
      dsimp only
      rw [slice?_eq hslice, bind_eq_bind, bind_some, copyInto?_eq hcopy,
        bind_some]
      exact ih (by omega) ((length_writeAt hcopy).trans hbuf) (by omega)

theorem intoDataChecked_eq (h : a.Indexable) : a.intoDataChecked = some a.intoData := by
  rw [intoDataChecked, range_eq_range',
    compactChecked_eq h (by omega) rfl (Nat.zero_le _), bind_eq_bind, bind_some,
    intoData, range_eq_range']
  rfl

/-! ## A datagram -/

theorem indexable_new {totalPackets : Nat} {isKeyframe afterSilence : Bool} {codec : UInt8}
    {now : Instant} : (new totalPackets isKeyframe codec afterSilence now).Indexable := by
  refine ⟨fun i size h => ?_, fun g hg => by cases hg⟩
  rw [size?, new, getElem?_replicate] at h
  split at h <;> cases h

theorem settleChecked_eq {tried : FrameAssembly × Bool} (h : tried.1.Indexable) :
    settleChecked tried = some (settle tried) := by
  rw [settleChecked, settle]
  split
  · rw [intoDataChecked_eq h]
    rfl
  · rfl

theorem indexable_settle {tried : FrameAssembly × Bool} (h : tried.1.Indexable) :
    ∀ a ∈ (settle tried).1, a.Indexable := by
  rw [settle]
  split
  · intro a ha
    cases ha
  · intro a ha
    cases ha
    exact h

theorem takeVideoChecked_eq {a : Option FrameAssembly} (h : ∀ frame ∈ a, frame.Indexable)
    (pkt : UdpVideoPacket) (now : Instant) (afterSilence : Bool) :
    takeVideoChecked a pkt now afterSilence = some (takeVideo a pkt now afterSilence) ∧
      (takeVideo a pkt now afterSilence).1.Indexable := by
  have hframe : (a.getD (.new pkt.totalPackets.toNat pkt.isKeyframe pkt.codec afterSilence
      now)).Indexable := by
    cases a with
    | none => exact indexable_new
    | some frame => exact h frame rfl
  have hinsert : ∀ i payload, ((a.getD (.new pkt.totalPackets.toNat pkt.isKeyframe pkt.codec
      afterSilence now)).insert i payload pkt.stream now).Indexable :=
    fun i payload => hframe.insert pkt.stream now
  rw [takeVideoChecked, takeVideo, insertChecked_eq, bind_eq_bind, bind_some]
  split
  · exact ⟨rfl, hinsert _ _⟩
  · exact ⟨tryFecRecoveryChecked_eq (hinsert _ _), (hinsert _ _).tryFecRecovery⟩

theorem onDatagramChecked_of_indexable {encrypted : Bool} {a : Option FrameAssembly}
    (h : ∀ frame ∈ a, frame.Indexable) (d : Arrival) :
    onDatagramChecked encrypted a d = some (onDatagram encrypted a d) ∧
      ∀ frame ∈ (onDatagram encrypted a d).1, frame.Indexable := by
  rw [onDatagramChecked, onDatagram]
  cases parseDatagram encrypted d.datagram with
  | none => exact ⟨rfl, h⟩
  | some p =>
    dsimp only
    cases p with
    | video pkt =>
      rw [onPacketChecked, onPacket]
      by_cases hmalformed : VideoReceiver.malformed pkt = true
      · rw [if_pos hmalformed, if_pos hmalformed]
        exact ⟨rfl, h⟩
      · rw [if_neg hmalformed, if_neg hmalformed]
        obtain ⟨hchecked, htaken⟩ := takeVideoChecked_eq h pkt d.now d.afterSilence
        rw [hchecked]
        exact ⟨settleChecked_eq htaken, indexable_settle htaken⟩
    | fec pkt =>
      cases a with
      | none => exact ⟨rfl, fun _ hf => by cases hf⟩
      | some frame =>
        have hadded := (h frame rfl).addFecGroup pkt
        have htaken := hadded.tryFecRecovery
        refine ⟨?_, indexable_settle htaken⟩
        rw [onPacketChecked, takeFecChecked, tryFecRecoveryChecked_eq hadded]
        exact settleChecked_eq htaken

theorem indexable_reassemble {encrypted : Bool} (arrivals : List Arrival) :
    ∀ frame ∈ reassemble encrypted arrivals, frame.Indexable := by
  induction arrivals using List.reverseRecOn with
  | nil =>
    intro frame hframe
    cases hframe
  | append_singleton arrivals d ih =>
    rw [reassemble, foldl_append]
    exact (onDatagramChecked_of_indexable ih d).2

theorem onDatagramChecked_eq {encrypted : Bool} (arrivals : List Arrival) (d : Arrival) :
    onDatagramChecked encrypted (reassemble encrypted arrivals) d =
      some (onDatagram encrypted (reassemble encrypted arrivals) d) :=
  (onDatagramChecked_of_indexable (indexable_reassemble arrivals) d).1

end Decibell.Media.FrameAssembly
