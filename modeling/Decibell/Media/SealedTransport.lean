import Decibell.Lib.Run
import Decibell.Media.Punch
import Mathlib.Data.List.Nodup

/-!
# Runs of a sealed socket

An end of a call punches its socket first, one turn of the punch after another, and then sends and
receives on it, in any order. Any bytes may arrive, from any address, at any time.
-/

namespace Decibell

open Lib List

/-- What an end of a call is doing with its socket. -/
inductive Phase
  | punching (p : Punch)
  | connected
  | closed

/-- An end of a call, and the latest instant it has seen. -/
structure Endpoint (Key : Type) where
  sock : SealedSocket Key
  phase : Phase
  clock : Nat

/-- A turn of the punch, a send, or a turn of the receive loop. -/
inductive EndpointAct
  | turn (t : PunchTurn)
  | send (inner : Bytes)
  | receive (a : Arrival)

variable {Key : Type} (aead : Aead Key)

namespace PunchTurn

/-- The instants of a turn. -/
def times (t : PunchTurn) : List Nat :=
  t.now :: t.validatedAt :: t.lockedAt :: t.reads.filterMap fun r => r.toOption.map (·.time)

end PunchTurn

/-- The instants of what happens. -/
def EndpointAct.times : EndpointAct → List Nat
  | .turn t => t.times
  | .send _ => []
  | .receive a => [a.time]

namespace Endpoint

/-- The phase after a turn of the punch. -/
def phaseOf : PunchStatus → Phase
  | .running p => .punching p
  | .ended (.ok _) => .connected
  | .ended (.error _) => .closed

/-- The end of a call after something happened; the socket is used between punch and failure. -/
def perform (e : Endpoint Key) (act : EndpointAct) : Endpoint Key :=
  match e.phase, act with
  | .punching p, .turn t =>
    let (status, sock) := p.punchTurn aead t e.sock
    { e with sock, phase := phaseOf status }
  | .connected, .send inner => { e with sock := (e.sock.send aead inner).2 }
  | .connected, .receive a => { e with sock := (e.sock.recvOne aead a).2.2 }
  | _, _ => e

/-- The address datagrams are sent to. -/
def peerAddr (e : Endpoint Key) : Option SocketAddr := e.sock.st.peer.map (·.1)

end Endpoint

/-- The runs of an end of a call. Clocks are monotone. -/
def endpointSystem : System (Endpoint Key) EndpointAct where
  init e := ∃ tx rx txSalt rxSalt selfId remote deadline now,
    e = ⟨.sealedSocket tx rx txSalt rxSalt selfId now,
      .punching (.begin selfId remote deadline now), now⟩
  step e act e' := (∀ t ∈ act.times, e.clock ≤ t ∧ t ≤ e'.clock) ∧ e.clock ≤ e'.clock ∧
    e' = { e.perform aead act with clock := e'.clock }

/-! ## The counters -/

/-- The counters below the limit of the first `n` drawn, latest first. -/
def used : (n : Nat) → List Nat
  | 0 => []
  | n + 1 => if n % 2 ^ 64 < txCounterLimit then n % 2 ^ 64 :: used n else used n

theorem mem_used {n c : Nat} : c ∈ used n ↔ c < txCounterLimit ∧ c < 2 ^ 64 ∧ c < n := by
  induction n with
  | zero => simp [used]
  | succ n ih =>
    rw [used]
    have hmod : n % 2 ^ 64 < 2 ^ 64 := Nat.mod_lt _ (by decide)
    have hle := Nat.mod_le n (2 ^ 64)
    by_cases h : n % 2 ^ 64 < txCounterLimit
    · rw [if_pos h, mem_cons, ih]
      constructor
      · rintro (rfl | ⟨h₁, h₂, h₃⟩)
        · exact ⟨h, hmod, by omega⟩
        · exact ⟨h₁, h₂, by omega⟩
      · rintro ⟨h₁, h₂, h₃⟩
        rcases Nat.lt_or_ge c n with hlt | hge
        · exact .inr ⟨h₁, h₂, hlt⟩
        · left
          omega
    · rw [if_neg h, ih]
      refine and_congr_right fun h₁ => and_congr_right fun h₂ => ?_
      constructor
      · omega
      · intro h₃
        rcases Nat.lt_or_ge c n with hlt | hge
        · exact hlt
        · have : n % 2 ^ 64 = c := by omega
          exact absurd (this ▸ h₁) h

/-- No counter is used twice before the 2^64-th draw; then the first is. -/
theorem nodup_used {n : Nat} : (used n).Nodup ↔ n ≤ 2 ^ 64 := by
  induction n with
  | zero => simp [used]
  | succ n ih =>
    rw [used]
    by_cases h : n % 2 ^ 64 < txCounterLimit
    · rw [if_pos h, nodup_cons, ih, mem_used]
      have hmod : n % 2 ^ 64 < 2 ^ 64 := Nat.mod_lt _ (by decide)
      constructor
      · rintro ⟨hnew, hle⟩
        have hge : n ≤ n % 2 ^ 64 := Nat.not_lt.1 fun hlt => hnew ⟨h, hmod, hlt⟩
        omega
      · intro hle
        refine ⟨fun hc => ?_, by omega⟩
        have := Nat.mod_eq_of_lt (show n < 2 ^ 64 by omega)
        omega
    · rw [if_neg h, ih]
      rw [txCounterLimit] at h
      constructor <;> intro hle
      · rcases Nat.lt_or_ge n (2 ^ 64) with hlt | hge
        · exact hlt
        · obtain rfl : n = 2 ^ 64 := Nat.le_antisymm hle hge
          exact absurd (by decide) h
      · omega

theorem beBytes_injOn {a b : Nat} (ha : a < 2 ^ 64) (hb : b < 2 ^ 64)
    (h : beBytes 8 a = beBytes 8 b) : a = b := by
  have h := reverse_inj.1 h
  have ha' := ofLeBytes_leBytes (k := 8) (n := a) (by simpa using ha)
  rw [← ha', h, ofLeBytes_leBytes (by simpa using hb)]

theorem nodup_nonces {salt : Bytes} {n : Nat} :
    ((used n).map (SealState.nonce salt)).Nodup ↔ n ≤ 2 ^ 64 := by
  rw [← nodup_used]
  refine ⟨List.Nodup.of_map _, fun h => h.map_on fun a ha b hb hab => ?_⟩
  exact beBytes_injOn (mem_used.1 ha).2.1 (mem_used.1 hb).2.1 (append_cancel_left hab)

/-! ## What each operation of a socket does -/

namespace SealState

variable {st : SealState Key}

/-- The nonces of a socket are those of the counters it has drawn. -/
def TxOk (st : SealState Key) : Prop :=
  st.txNonces = (used st.txCtr.adds).map (nonce st.txSalt)

theorem sealDatagram_spec (h : st.TxOk) (inner : Bytes) :
    (st.sealDatagram aead inner).2.TxOk ∧ (st.sealDatagram aead inner).2.rxWin = st.rxWin ∧
      (st.sealDatagram aead inner).2.peer = st.peer := by
  rw [TxOk] at h
  unfold sealDatagram
  by_cases hlen : maxInner < inner.length
  · simp only [hlen, if_true]
    exact ⟨h, trivial, trivial⟩
  simp only [hlen, if_false, AtomicU64.fetchAdd, AtomicU64.value]
  by_cases hlimit : txCounterLimit ≤ st.txCtr.adds % 2 ^ 64
  · simp only [hlimit, if_true, and_true]
    simp only [TxOk, used, if_neg (Nat.not_lt.2 hlimit), h]
  · have htx : ∀ st' : SealState Key, st'.txCtr = ⟨st.txCtr.adds + 1⟩ → st'.txSalt = st.txSalt →
        st'.txNonces = nonce st.txSalt (st.txCtr.adds % 2 ^ 64) :: st.txNonces → st'.TxOk := by
      intro st' hctr hsalt hnonces
      simp only [TxOk, hctr, hsalt, hnonces, used, if_pos (Nat.not_le.1 hlimit), h, map_cons]
    simp only [hlimit, if_false]
    cases aead.encrypt st.tx (nonce st.txSalt (st.txCtr.adds % 2 ^ 64)) _ inner <;>
      exact ⟨htx _ rfl rfl rfl, rfl, rfl⟩

theorem adds_sealDatagram {inner : Bytes} (h : inner.length ≤ maxInner) :
    (st.sealDatagram aead inner).2.txCtr.adds = st.txCtr.adds + 1 := by
  unfold sealDatagram
  simp only [Nat.not_lt.2 h, if_false, AtomicU64.fetchAdd]
  by_cases hlimit : txCounterLimit ≤ st.txCtr.value
  · simp only [hlimit, if_true]
  · simp only [hlimit, if_false]
    cases aead.encrypt st.tx (nonce st.txSalt st.txCtr.value) _ inner <;> rfl

theorem openDatagram_spec {seen : List Nat} (h : st.rxWin.Represents seen) (buf : Bytes) :
    (∃ rxWin, (st.openDatagram aead buf).2 = { st with rxWin }) ∧
    match (st.openDatagram aead buf).1 with
    | none => (st.openDatagram aead buf).2.rxWin.Represents seen
    | some _ => counterOf buf ∉ seen ∧
        (st.openDatagram aead buf).2.rxWin.Represents (counterOf buf :: seen) := by
  unfold openDatagram
  simp only
  split
  · exact ⟨⟨_, rfl⟩, h⟩
  split
  · exact ⟨⟨_, rfl⟩, h⟩
  · obtain ⟨hv, hr⟩ := ReplayWindow.accept_spec h (counterOf buf)
    refine ⟨⟨_, rfl⟩, ?_⟩
    simp only [hv, ReplayWindow.admitCounter] at hr ⊢
    by_cases ha : ReplayWindow.admits seen (counterOf buf) = true
    · rw [if_pos ha] at hr ⊢
      refine ⟨?_, hr⟩
      simp only [ReplayWindow.admits, Bool.and_eq_true, decide_eq_true_eq] at ha
      exact ha.1
    · rw [if_neg ha] at hr ⊢
      exact hr

end SealState

namespace SealedSocket

variable {s : SealedSocket Key} {clock clock' : Nat}

/-- The counter of a datagram that was read. -/
def counter (a : Arrival) : Nat := SealState.counterOf a.datagram

/-- What holds of a socket at an instant, whoever its peer is. -/
structure Sound (s : SealedSocket Key) (clock : Nat) : Prop where
  tx : s.st.TxOk
  window : s.st.rxWin.Represents (s.opened.map counter)
  fresh : (s.opened.map counter).Nodup
  heard : ∀ o ∈ s.opened, o.time ≤ clock

/-- The peer's instant is not before any of its datagrams that opened. -/
def HeardSince (s : SealedSocket Key) (clock : Nat) : Prop :=
  ∀ addr last, s.st.peer = some (addr, last) →
    last ≤ clock ∧ ∀ o ∈ s.opened, o.src = addr → o.time ≤ last

theorem Sound.later (h : s.Sound clock) (hle : clock ≤ clock') : s.Sound clock' :=
  ⟨h.tx, h.window, h.fresh, fun o ho => Nat.le_trans (h.heard o ho) hle⟩

theorem HeardSince.later (h : s.HeardSince clock) (hle : clock ≤ clock') :
    s.HeardSince clock' :=
  fun addr last hp => ⟨Nat.le_trans (h addr last hp).1 hle, (h addr last hp).2⟩

/-- What sending leaves alone. -/
structure OnlySent (s s' : SealedSocket Key) (clock : Nat) : Prop where
  sound : s'.Sound clock
  opened : s'.opened = s.opened
  peer : s'.st.peer = s.st.peer

theorem OnlySent.refl (h : s.Sound clock) : OnlySent s s clock := ⟨h, rfl, rfl⟩

theorem OnlySent.trans {s' s'' : SealedSocket Key} (h : OnlySent s s' clock)
    (h' : OnlySent s' s'' clock) : OnlySent s s'' clock :=
  ⟨h'.sound, h'.opened.trans h.opened, h'.peer.trans h.peer⟩

theorem OnlySent.heardSince {s' : SealedSocket Key} (h : OnlySent s s' clock)
    (hs : s.HeardSince clock) : s'.HeardSince clock := by
  rw [HeardSince, h.peer, h.opened]
  exact hs

theorem sendProbeTo_spec (h : s.Sound clock) (inner : Bytes) (dest : SocketAddr) :
    OnlySent s (s.sendProbeTo aead inner dest).2 clock := by
  obtain ⟨htx, hwin, hpeer⟩ := SealState.sealDatagram_spec aead h.tx inner
  exact ⟨⟨htx, by simpa only [sendProbeTo, hwin] using h.window, h.fresh, h.heard⟩, rfl, hpeer⟩

theorem send_spec (h : s.Sound clock) (inner : Bytes) : OnlySent s (s.send aead inner).2 clock := by
  unfold send
  cases s.st.peer with
  | none => exact .refl h
  | some p => exact sendProbeTo_spec aead h inner p.1

theorem reflect_spec (h : s.Sound clock) (inner : Bytes) (dest : SocketAddr) :
    OnlySent s (s.reflect aead inner dest).2 clock := by
  have hs := sendProbeTo_spec aead h inner dest
  unfold reflect
  generalize s.sendProbeTo aead inner dest = r at hs ⊢
  rcases r with ⟨_ | _, s'⟩ <;> exact hs

theorem open_spec (h : s.Sound clock) (a : Arrival) (hle : clock ≤ a.time) :
    ∃ rxWin, (s.st.openDatagram aead a.datagram).2 = { s.st with rxWin } ∧
    match (s.st.openDatagram aead a.datagram).1 with
    | none => Sound { s with st := { s.st with rxWin } } clock
    | some _ => Sound ({ s with st := { s.st with rxWin } }.touchRx a) a.time := by
  obtain ⟨⟨rxWin, hst⟩, hopen⟩ := SealState.openDatagram_spec aead h.window a.datagram
  refine ⟨rxWin, hst, ?_⟩
  rw [hst] at hopen
  rcases hres : (s.st.openDatagram aead a.datagram).1 with _ | inner
  · rw [hres] at hopen
    exact ⟨h.tx, hopen, h.fresh, h.heard⟩
  · rw [hres] at hopen
    refine ⟨h.tx, hopen.2, nodup_cons.2 ⟨hopen.1, h.fresh⟩, fun o ho => ?_⟩
    rcases mem_cons.1 ho with rfl | ho
    · exact Nat.le_refl _
    · exact Nat.le_trans (h.heard o ho) hle

theorem Sound.withPeer (h : s.Sound clock) (peer : Option (SocketAddr × Nat)) :
    Sound { s with st := { s.st with peer } } clock :=
  ⟨h.tx, h.window, h.fresh, h.heard⟩

theorem learnPeer_eq (st : SealState Key) (src : SocketAddr) (now : Nat) :
    ∃ peer, st.learnPeer src now = { st with peer } := by
  unfold SealState.learnPeer
  split
  · exact ⟨_, rfl⟩
  · split
    · exact ⟨_, rfl⟩
    · split
      · exact ⟨_, rfl⟩
      · exact ⟨st.peer, rfl⟩

/-- A peer address changes to the source of what just opened, after a long enough silence. -/
def Moved (s s' : SealedSocket Key) (a : Arrival) : Prop :=
  s'.st.peer.map (·.1) ≠ s.st.peer.map (·.1) →
    s'.opened = a :: s.opened ∧ s'.st.peer.map (·.1) = some a.src ∧
      ∀ old, s.st.peer.map (·.1) = some old →
        ∀ o ∈ s.opened, o.src = old → o.time + peerMigrateSilence < a.time

theorem learnPeer_spec (h : s.Sound clock) (hs : s.HeardSince clock) {a : Arrival}
    (hle : clock ≤ a.time) (s' : SealedSocket Key) (hst : s'.st.peer = s.st.peer)
    (hop : s'.opened = a :: s.opened) :
    HeardSince { s' with st := s'.st.learnPeer a.src a.time } a.time ∧
      Moved s { s' with st := s'.st.learnPeer a.src a.time } a := by
  -- When the peer is heard now, every datagram that opened did so by now.
  have hnow : ∀ st' : SealState Key, st'.peer = some (a.src, a.time) →
      HeardSince { s' with st := st' } a.time := by
    intro st' hpeer addr last hp
    obtain ⟨rfl, rfl⟩ := Prod.mk.inj (Option.some.inj (hpeer.symm.trans hp))
    refine ⟨Nat.le_refl _, fun o ho _ => ?_⟩
    rcases mem_cons.1 (hop ▸ ho) with rfl | ho
    · exact Nat.le_refl _
    · exact Nat.le_trans (h.heard o ho) hle
  unfold SealState.learnPeer
  rw [hst]
  rcases hp : s.st.peer with _ | ⟨cur, last⟩
  · refine ⟨hnow _ rfl, fun _ => ⟨hop, rfl, fun old hold => ?_⟩⟩
    rw [hp] at hold
    exact nomatch hold
  obtain ⟨hlast, hsince⟩ := hs cur last hp
  by_cases hsrc : cur = a.src
  · subst hsrc
    simp only [if_true]
    refine ⟨hnow _ rfl, fun hne => absurd ?_ hne⟩
    rw [hp]
    rfl
  by_cases hsilent : peerMigrateSilence < a.time - last
  · simp only [hsrc, hsilent, if_true, if_false]
    refine ⟨hnow _ rfl, fun _ => ⟨hop, rfl, fun old hold o ho hosrc => ?_⟩⟩
    rw [hp] at hold
    obtain rfl := Option.some.inj hold
    have := hsince o ho hosrc
    omega
  · -- A datagram from elsewhere while the peer is still heard.
    simp only [hsrc, hsilent, if_false]
    refine ⟨fun addr last' hp' => ?_, fun hne => absurd ?_ hne⟩
    · obtain ⟨rfl, rfl⟩ := Prod.mk.inj (Option.some.inj (hp.symm.trans (hst.symm.trans hp')))
      refine ⟨Nat.le_trans hlast hle, fun o ho hosrc => ?_⟩
      rcases mem_cons.1 (hop ▸ ho) with rfl | ho
      · exact absurd hosrc.symm hsrc
      · exact hsince o ho hosrc
    · rw [hst]

theorem recvOne_spec (h : s.Sound clock) (hs : s.HeardSince clock) (a : Arrival)
    (hle : clock ≤ a.time) :
    (s.recvOne aead a).2.2.Sound a.time ∧ (s.recvOne aead a).2.2.HeardSince a.time ∧
      Moved s (s.recvOne aead a).2.2 a := by
  obtain ⟨rxWin, hst, hopen⟩ := open_spec aead h a hle
  unfold recvOne
  generalize s.st.openDatagram aead a.datagram = r at hst hopen ⊢
  obtain ⟨res, st⟩ := r
  obtain rfl : st = { s.st with rxWin } := hst
  rcases res with _ | inner
  · exact ⟨hopen.later hle, hs.later hle, fun hne => absurd rfl hne⟩
  simp only
  obtain ⟨hsince, hmoved⟩ := learnPeer_spec h hs hle
    ({ s with st := { s.st with rxWin } }.touchRx a) rfl rfl
  generalize hs₁ : ({ { s with st := { s.st with rxWin } }.touchRx a with
    st := ({ s with st := { s.st with rxWin } }.touchRx a).st.learnPeer a.src a.time } :
      SealedSocket Key) = s₁ at hsince hmoved ⊢
  have hsound : s₁.Sound a.time := by
    obtain ⟨peer, hpeer⟩ :=
      learnPeer_eq ({ s with st := { s.st with rxWin } }.touchRx a).st a.src a.time
    rw [← hs₁, hpeer]
    exact Sound.withPeer hopen peer
  split
  · have hsent := reflect_spec aead hsound inner a.src
    refine ⟨hsent.sound, hsent.heardSince hsince, ?_⟩
    rw [Moved, hsent.opened, hsent.peer]
    exact hmoved
  · exact ⟨hsound, hsince, hmoved⟩

/-! ## The punch -/

/-- A turn of the punch leaves the peer, and the paths heard. -/
structure Listened (s s' : SealedSocket Key) (clock : Nat) : Prop where
  sound : s'.Sound clock
  peer : s'.st.peer = s.st.peer
  opened : ∀ o ∈ s.opened, o ∈ s'.opened

theorem OnlySent.listened {s' : SealedSocket Key} (h : OnlySent s s' clock) :
    Listened s s' clock :=
  ⟨h.sound, h.peer, fun _ ho => h.opened ▸ ho⟩

theorem Listened.trans {s' s'' : SealedSocket Key} (h : Listened s s' clock)
    (h' : Listened s' s'' clock') : Listened s s'' clock' :=
  ⟨h'.sound, h'.peer.trans h.peer, fun o ho => h'.opened o (h.opened o ho)⟩

/-- Whether a datagram from an address has opened. -/
def HeardFrom (s : SealedSocket Key) (addr : SocketAddr) : Prop := ∃ o ∈ s.opened, o.src = addr

theorem Listened.heardFrom {s' : SealedSocket Key} (h : Listened s s' clock) {addr : SocketAddr}
    (ha : s.HeardFrom addr) : s'.HeardFrom addr := by
  obtain ⟨o, ho, hsrc⟩ := ha
  exact ⟨o, h.opened o ho, hsrc⟩

theorem recvProbeLoop_spec (h : s.Sound clock) (hle : clock ≤ clock') (bufLen skips : Nat)
    (reads : List (Except IoError Arrival))
    (hreads : ∀ a, .ok a ∈ reads → clock ≤ a.time ∧ a.time ≤ clock') :
    Listened s (recvProbeLoop aead bufLen skips reads s).2 clock' ∧
      ∀ inner src, (recvProbeLoop aead bufLen skips reads s).1 = .ok (inner, src) →
        (recvProbeLoop aead bufLen skips reads s).2.HeardFrom src := by
  have hstay : ∀ e, Listened s s clock' ∧ ∀ inner src,
      (.error e : Except IoError (Bytes × SocketAddr)) = .ok (inner, src) → s.HeardFrom src :=
    fun e => ⟨⟨h.later hle, rfl, fun _ ho => ho⟩, nofun⟩
  induction skips generalizing s reads with
  | zero => exact hstay _
  | succ skips ih =>
    rcases reads with _ | ⟨_ | a, reads⟩
    · exact hstay _
    · exact hstay _
    · obtain ⟨ha, ha'⟩ := hreads a mem_cons_self
      obtain ⟨rxWin, hst, hopen⟩ := open_spec aead h a ha
      rw [recvProbeLoop]
      generalize s.st.openDatagram aead a.datagram = r at hst hopen ⊢
      obtain ⟨res, st⟩ := r
      obtain rfl : st = { s.st with rxWin } := hst
      rcases res with _ | inner
      · -- It does not open, and the loop goes on.
        have hskip := ih hopen reads (fun b hb => hreads b (mem_cons_of_mem _ hb))
          fun e => ⟨⟨hopen.later hle, rfl, fun _ ho => ho⟩, nofun⟩
        exact ⟨⟨hskip.1.sound, hskip.1.peer, hskip.1.opened⟩, hskip.2⟩
      · refine ⟨⟨hopen.later ha', rfl, fun o ho => mem_cons_of_mem _ ho⟩, ?_⟩
        rintro _ _ ⟨⟩
        exact ⟨a, mem_cons_self, rfl⟩

theorem spray_spec (h : s.Sound clock) (inner : Bytes) (dests : List SocketAddr) :
    OnlySent s (Punch.spray aead inner dests s) clock := by
  induction dests generalizing s with
  | nil => exact .refl h
  | cons dest dests ih =>
    have hs := sendProbeTo_spec aead h inner dest
    exact hs.trans (ih hs.sound)

def PathsHeard (p : Punch) (s : SealedSocket Key) : Prop :=
  ∀ v ∈ p.validated, s.HeardFrom v.addr

theorem pathsHeard_validate {p : Punch} {src : SocketAddr} (hp : PathsHeard p s)
    (hsrc : s.HeardFrom src) (rttNs : Option Nat) (validatedAt : Nat) :
    PathsHeard (p.validate src rttNs validatedAt) s := by
  unfold Punch.validate
  split
  · intro v hv
    obtain ⟨w, hw, rfl⟩ := mem_map.1 hv
    split
    · exact hp w hw
    · exact hp w hw
  · intro v hv
    rcases mem_append.1 hv with hv | hv
    · exact hp v hv
    · rw [mem_singleton.1 hv]
      exact hsrc

theorem pingDue_spec {p : Punch} (h : s.Sound clock) (t : PunchTurn) :
    (p.pingDue aead t s).1.validated = p.validated ∧
      OnlySent s (p.pingDue aead t s).2 clock := by
  unfold Punch.pingDue
  split
  · exact ⟨rfl, spray_spec aead h _ _⟩
  · exact ⟨rfl, .refl h⟩

theorem probed_spec {p : Punch} (h : s.Sound clock) (hp : PathsHeard p s) {src : SocketAddr}
    (hsrc : s.HeardFrom src) (t : PunchTurn) (inner : Bytes) :
    PathsHeard (p.probed aead t inner src s).1 (p.probed aead t inner src s).2 ∧
      OnlySent s (p.probed aead t inner src s).2 clock := by
  unfold Punch.probed
  simp only
  split
  · have hs := sendProbeTo_spec aead h inner src
    exact ⟨pathsHeard_validate (fun v hv => hs.listened.heardFrom (hp v hv))
      (hs.listened.heardFrom hsrc) _ _, hs⟩
  · exact ⟨pathsHeard_validate hp hsrc _ _, .refl h⟩

/-- A turn of the punch listens, gives up, or locks a path heard. -/
def PunchDone (s : SealedSocket Key) (t : PunchTurn) (clock : Nat) :
    PunchStatus → SealedSocket Key → Prop
  | .running p, s' => PathsHeard p s' ∧ Listened s s' clock
  | .ended (.error _), s' => s' = s
  | .ended (.ok v), s' => s.HeardFrom v.addr ∧ s' = s.setPeer v.addr t.lockedAt

theorem finish_spec {p : Punch} (hp : PathsHeard p s) (t : PunchTurn) :
    PunchDone s t clock (p.finish t s).1 (p.finish t s).2 := by
  unfold Punch.finish
  have hbest : ∀ v, Punch.best p.validated = some v → v ∈ p.validated := by
    intro v hv
    rw [Punch.best, Option.or_eq_some_iff] at hv
    rcases hv with hv | ⟨-, hv⟩
    · exact mem_of_find?_eq_some hv
    · exact mem_of_head? hv
  cases hv : Punch.best p.validated with
  | none => exact rfl
  | some v => exact ⟨hp v (hbest v hv), rfl⟩

theorem punchTurn_spec {p : Punch} (h : s.Sound clock) (hp : PathsHeard p s) (t : PunchTurn)
    (hle : clock ≤ clock') (ht : ∀ i ∈ t.times, clock ≤ i ∧ i ≤ clock') :
    PunchDone s t clock' (p.punchTurn aead t s).1 (p.punchTurn aead t s).2 := by
  unfold Punch.punchTurn
  split
  · exact rfl
  split
  · exact finish_spec hp t
  split
  · exact finish_spec hp t
  obtain ⟨hvalid, hping⟩ := pingDue_spec aead (p := p) h t
  have hreads : ∀ a, .ok a ∈ t.reads → clock ≤ a.time ∧ a.time ≤ clock' := by
    intro a ha
    refine ht _ ?_
    simp only [PunchTurn.times, mem_cons, mem_filterMap]
    exact .inr (.inr (.inr ⟨_, ha, rfl⟩))
  generalize p.pingDue aead t s = r at hvalid hping ⊢
  obtain ⟨p₁, s₁⟩ := r
  have hp₁ : PathsHeard p₁ s₁ := fun v hv => hping.listened.heardFrom (hp v (hvalid ▸ hv))
  obtain ⟨hlisten, hsrc⟩ :=
    recvProbeLoop_spec aead hping.sound hle recvBufSize maxSkippedPerRecv t.reads hreads
  simp only [recvProbe]
  generalize recvProbeLoop aead recvBufSize maxSkippedPerRecv t.reads s₁ = r at hlisten hsrc ⊢
  obtain ⟨_ | ⟨inner, src⟩, s₂⟩ := r
  · exact ⟨fun v hv => hlisten.heardFrom (hp₁ v hv), hping.listened.trans hlisten⟩
  · obtain ⟨hpaths, hsent⟩ := probed_spec aead hlisten.sound
      (fun v hv => hlisten.heardFrom (hp₁ v hv)) (hsrc inner src rfl) t inner
    exact ⟨hpaths, (hping.listened.trans hlisten).trans hsent.listened⟩

end SealedSocket

/-! ## Runs -/

namespace Endpoint

variable {aead} {e e' : Endpoint Key}

open SealedSocket

/-- What holds in every state of a run. -/
structure Ok (e : Endpoint Key) : Prop where
  sound : e.sock.Sound e.clock
  since : e.sock.HeardSince e.clock
  /-- During the punch no peer is locked yet. -/
  punching : ∀ p, e.phase = .punching p → e.sock.st.peer = none ∧ PathsHeard p e.sock

/-- The peer's address changes only to the source of the datagram that just opened, when all that
    opened from the old one did longer ago than the timeout. -/
def PeerMoves (e e' : Endpoint Key) : Prop :=
  e'.peerAddr ≠ e.peerAddr →
    ∃ o ∈ e'.sock.opened, e'.peerAddr = some o.src ∧
      ∀ old, e.peerAddr = some old → e'.sock.opened = o :: e.sock.opened ∧
        ∀ q ∈ e.sock.opened, q.src = old → q.time + peerMigrateSilence < o.time

theorem ok_init (h : (endpointSystem aead).init e) : e.Ok := by
  obtain ⟨tx, rx, txSalt, rxSalt, selfId, remote, deadline, now, rfl⟩ := h
  exact ⟨⟨rfl, ReplayWindow.represents_new, nodup_nil, nofun⟩, nofun,
    fun p hp => by cases hp; exact ⟨rfl, nofun⟩⟩

theorem ok_turn (h : e.Ok) {p : Punch} (hp : e.phase = .punching p) {t : PunchTurn} {clock : Nat}
    (ht : ∀ i ∈ t.times, e.clock ≤ i ∧ i ≤ clock) (hle : e.clock ≤ clock) :
    Ok { sock := (p.punchTurn aead t e.sock).2, phase := phaseOf (p.punchTurn aead t e.sock).1,
         clock } ∧
      PeerMoves e { sock := (p.punchTurn aead t e.sock).2,
                    phase := phaseOf (p.punchTurn aead t e.sock).1, clock } := by
  obtain ⟨hnone, hpaths⟩ := h.punching p hp
  have hturn := punchTurn_spec aead h.sound hpaths t hle ht
  generalize p.punchTurn aead t e.sock = r at hturn ⊢
  rcases r with ⟨p' | err | v, s'⟩
  · obtain ⟨hpaths', hs⟩ := hturn
    have hpeer : s'.st.peer = none := hs.peer.trans hnone
    refine ⟨⟨hs.sound, fun addr last ha => ?_, fun q hq => ?_⟩, fun hne => absurd ?_ hne⟩
    · exact nomatch hpeer.symm.trans ha
    · cases hq
      exact ⟨hpeer, hpaths'⟩
    · exact congrArg (Option.map (·.1)) hs.peer
  · obtain rfl := hturn
    exact ⟨⟨h.sound.later hle, h.since.later hle, nofun⟩, fun hne => absurd rfl hne⟩
  · obtain ⟨⟨o, ho, hsrc⟩, rfl⟩ := hturn
    obtain ⟨hlock, hlock'⟩ := ht t.lockedAt (by simp [PunchTurn.times])
    refine ⟨⟨(h.sound.later hle).withPeer _, fun addr last ha => ?_, nofun⟩, fun _ => ?_⟩
    · obtain ⟨rfl, rfl⟩ := Prod.mk.inj (Option.some.inj ha)
      exact ⟨hlock', fun q hq _ => Nat.le_trans (h.sound.heard q hq) hlock⟩
    · refine ⟨o, ho, congrArg some hsrc.symm, fun old hold => ?_⟩
      rw [peerAddr, hnone] at hold
      exact nomatch hold

theorem ok_step {act : EndpointAct} (h : e.Ok) (hs : (endpointSystem aead).step e act e') :
    e'.Ok ∧ PeerMoves e e' := by
  obtain ⟨ht, hle, he'⟩ := hs
  have hidle : ∀ clock, e.clock ≤ clock →
      Ok { e with clock } ∧ PeerMoves e { e with clock } := fun clock hle =>
    ⟨⟨h.sound.later hle, h.since.later hle, h.punching⟩, fun hne => absurd rfl hne⟩
  generalize e'.clock = clock at he' ht hle
  subst he'
  rcases e with ⟨sock, p | _ | _, now⟩ <;> rcases act with t | inner | a
  · exact ok_turn h rfl ht hle
  · exact hidle clock hle
  · exact hidle clock hle
  · exact hidle clock hle
  · -- A send.
    have hsent := send_spec aead (h.sound.later hle) inner
    refine ⟨⟨hsent.sound, hsent.heardSince (h.since.later hle), nofun⟩, fun hne => absurd ?_ hne⟩
    exact congrArg (Option.map (·.1)) hsent.peer
  · -- A turn of the receive loop.
    obtain ⟨ha, ha'⟩ := ht a.time (by simp [EndpointAct.times])
    obtain ⟨hsound, hsince, hmoved⟩ := recvOne_spec aead h.sound h.since a ha
    refine ⟨⟨hsound.later ha', hsince.later ha', nofun⟩, fun hne => ?_⟩
    obtain ⟨hop, hpeer, hsilent⟩ := hmoved hne
    exact ⟨a, hop ▸ mem_cons_self, hpeer, fun old hold => ⟨hop, hsilent old hold⟩⟩
  · exact hidle clock hle
  · exact hidle clock hle
  · exact hidle clock hle

theorem ok_of_reachable (h : (endpointSystem aead).Reachable e) : e.Ok :=
  System.reachable_invariant (I := Ok) (fun _ hi => ok_init hi)
    (fun _ _ _ h hs => (ok_step h hs).1) h

/-! ## The loops of the source are runs -/

/-- Turns of the punch one after another, from an instant on. -/
def InOrder : (clock : Nat) → List PunchTurn → Prop
  | _, [] => True
  | clock, t :: turns => ∃ clock', clock ≤ clock' ∧
      (∀ i ∈ t.times, clock ≤ i ∧ i ≤ clock') ∧ InOrder clock' turns

theorem perform_turn {p : Punch} (hp : e.phase = .punching p) (t : PunchTurn) :
    e.perform aead (.turn t) = { e with
      sock := (p.punchTurn aead t e.sock).2, phase := phaseOf (p.punchTurn aead t e.sock).1 } := by
  obtain ⟨sock, phase, clock⟩ := e
  obtain rfl : phase = .punching p := hp
  rfl

theorem perform_receive (hp : e.phase = .connected) (a : Arrival) :
    e.perform aead (.receive a) = { e with sock := (e.sock.recvOne aead a).2.2 } := by
  obtain ⟨sock, phase, clock⟩ := e
  obtain rfl : phase = .connected := hp
  rfl

/-- The replay window decides as its reference on every sequence. In every state of a run no
    datagram has opened twice, and the peer moves only as it should; no nonce was used twice exactly
    when 2^64 counters were drawn at most. -/
theorem sealed_transport (h : (endpointSystem aead).Reachable e) :
    (∀ ctrs, ReplayWindow.verdicts {} ctrs = ReplayWindow.referenceVerdicts [] ctrs) ∧
      (e.sock.opened.map (·.datagram)).Nodup ∧
      (∀ act e', (endpointSystem aead).step e act e' → PeerMoves e e') ∧
      (e.sock.st.txNonces.Nodup ↔ e.sock.st.txCtr.adds ≤ 2 ^ 64) := by
  have hok := ok_of_reachable h
  refine ⟨ReplayWindow.verdicts_eq_reference ReplayWindow.represents_new, ?_,
    fun act e' hs => (ok_step hok hs).2, ?_⟩
  · have hfresh : ((e.sock.opened.map (·.datagram)).map SealState.counterOf).Nodup := by
      rw [List.map_map]
      exact hok.sound.fresh
    exact hfresh.of_map _
  · rw [hok.sound.tx]
    exact nodup_nonces

/-! ## A call, and one that never ends -/

/-- A cipher that leaves its plaintext as it is. -/
def clearAead : Aead Unit where
  encrypt _ _ _ plain := some (plain, List.replicate tagLen 0)
  decrypt _ _ _ cipher tag := if tag = List.replicate tagLen 0 then some cipher else none

/-- What such a cipher makes of an empty datagram under a counter. -/
def emptyDatagram (ctr : Nat) : Bytes :=
  outerTypeSealed :: (leBytes 8 ctr ++ List.replicate tagLen 0)

/-- The addresses of a peer at home and away. -/
def home : SocketAddr := .v4 192 168 0 2 4000
def away : SocketAddr := .v4 203 0 113 9 4000

def calling : Endpoint Unit :=
  ⟨.sealedSocket () () [] [] [49] 0, .punching (.begin [49] [⟨home, .host⟩] (3 * 10 ^ 9) 0), 0⟩

/-- A turn of the punch at an instant, with what it reads. -/
def turnAt (now : Nat) (reads : List (Except IoError Arrival)) : EndpointAct :=
  .turn { stop := false, now, pingNs := 0, reads, echoNs := 0, validatedAt := now, lockedAt := now }

/-- The end of a call after something happened by an instant. -/
def after (e : Endpoint Unit) (act : EndpointAct) (clock : Nat) : Endpoint Unit :=
  { e.perform clearAead act with clock }

/-- The call after a datagram of the peer's, and the grace period. -/
def punched : Endpoint Unit :=
  (calling.after (turnAt 0 [.ok ⟨emptyDatagram 0, home, 0⟩]) 0).after (turnAt grace []) grace

/-- After five seconds of silence the peer is heard from elsewhere. -/
def roamed : Endpoint Unit :=
  punched.after (.receive ⟨emptyDatagram 1, away, 5 * 10 ^ 9⟩) (5 * 10 ^ 9)

theorem reachable_punched : (endpointSystem clearAead).Reachable punched := by
  refine .step _ (.step _ (.init ⟨_, _, _, _, _, _, _, _, rfl⟩) ⟨?_, ?_, rfl⟩) ⟨?_, ?_, rfl⟩
  all_goals decide

theorem sealed_transport_roamed : roamed.peerAddr = some away ∧
    (roamed.sock.opened.map (·.datagram)).Nodup ∧
      (roamed.sock.st.txNonces.Nodup ↔ roamed.sock.st.txCtr.adds ≤ 2 ^ 64) := by
  have hr : (endpointSystem clearAead).Reachable roamed :=
    .step _ reachable_punched ⟨by decide, by decide, rfl⟩
  obtain ⟨-, hopened, -, hnonces⟩ := sealed_transport hr
  exact ⟨by decide, hopened, hnonces⟩

theorem exists_draws (n : Nat) : ∃ e : Endpoint Unit, (endpointSystem clearAead).Reachable e ∧
    e.phase = .connected ∧ e.sock.st.peer ≠ none ∧ e.sock.st.txCtr.adds = n + 1 := by
  induction n with
  | zero => exact ⟨punched, reachable_punched, rfl, by decide, by decide⟩
  | succ n ih =>
    obtain ⟨e, hr, hphase, hpeer, hadds⟩ := ih
    refine ⟨e.after (.send []) e.clock, .step _ hr ⟨fun _ ht => absurd ht not_mem_nil, Nat.le_refl _, rfl⟩,
      ?_⟩
    have hsound := (ok_of_reachable hr).sound
    have hsent := send_spec clearAead hsound []
    obtain ⟨sock, phase, clock⟩ := e
    obtain rfl : phase = .connected := hphase
    refine ⟨rfl, fun h => hpeer (hsent.peer ▸ h), ?_⟩
    obtain ⟨⟨dest, last⟩, hsome⟩ := Option.ne_none_iff_exists'.1 hpeer
    have hdraw : (sock.st.sealDatagram clearAead []).2.txCtr.adds = n + 1 + 1 := by
      rw [SealState.adds_sealDatagram clearAead (Nat.zero_le _)]
      exact congrArg (· + 1) hadds
    have hsend : (sock.send clearAead []).2.st.txCtr.adds = n + 1 + 1 := by
      rw [send, hsome]
      exact hdraw
    exact hsend

/-- After 2^64 draws the first counter is drawn once more. -/
theorem reused_nonce : ¬ ∀ e : Endpoint Unit, (endpointSystem clearAead).Reachable e →
    e.sock.st.txNonces.Nodup := by
  intro h
  obtain ⟨e, hr, -, -, hadds⟩ := exists_draws (2 ^ 64)
  have hnodup := h e hr
  rw [(ok_of_reachable hr).sound.tx, nodup_nonces, hadds] at hnodup
  omega

end Endpoint
end Decibell
