import Decibell.Lib.Log
import Decibell.Lib.Run
import Mathlib.Logic.Function.Basic

/-!
# Certificate pins

Every connection is made to a server whose certificate is pinned: to the fingerprint the central
server reports for it, or to the one that was seen first.
-/

namespace Decibell

open Lib Function List

/-- What the verifier is to enforce: a fingerprint, or nothing yet. -/
inductive Policy
  | exact (fingerprint : String)
  | tofu
deriving DecidableEq

/-- The pins with their file, the fingerprints the central server reported, and the addresses to be
    trusted anew. -/
structure PinStore where
  loaded : Bool := false
  pins : String → Option String := fun _ => none
  expected : String → Option String := fun _ => none
  retrusted : String → Bool := fun _ => false
  /-- What the file holds; `none` when it cannot be read. -/
  file : Option (String → Option String)

namespace PinStore

def ensureLoaded (s : PinStore) : PinStore :=
  if s.loaded then s else { s with loaded := true, pins := s.file.getD s.pins }

def persist (s : PinStore) : PinStore := { s with file := some s.pins }

/-- The key of an address. -/
def key (host : String) (port : Nat) : String := host.toLower ++ ":" ++ toString port

/-- Records the fingerprint the central server reported. -/
def setExpected (s : PinStore) (k fingerprint : String) : PinStore :=
  { s with expected := update s.expected k (some fingerprint.toLower) }

/-- What the maps say of an address. -/
def policy (s : PinStore) (k : String) : Policy :=
  if s.retrusted k then .tofu
  else match s.expected k with
    | some fp => .exact fp
    | none => match s.pins k with
      | some fp => .exact fp
      | none => .tofu

/-- What the verifier should enforce for a connection. -/
def policyFor (s : PinStore) (k : String) : Policy × PinStore :=
  let s := s.ensureLoaded
  (s.policy k, s)

/-- Pins a fingerprint that was accepted, and ends a re-trust. -/
def recordSeen (s : PinStore) (k fingerprint : String) : PinStore :=
  let s := s.ensureLoaded
  let s := { s with retrusted := update s.retrusted k false }
  if s.pins k = some fingerprint then s
  else { s with pins := update s.pins k (some fingerprint) }.persist

/-- Forgets what is known of an address, and trusts it anew. -/
def retrust (s : PinStore) (k : String) : PinStore :=
  let s := s.ensureLoaded
  { s with
    pins := update s.pins k none
    expected := update s.expected k none
    retrusted := update s.retrusted k true }.persist

end PinStore

/-- Where a connection attempt stands. -/
inductive AttemptPhase (Cert : Type)
  | lookedUp
  | checked (cert : Cert)
  | completed (cert : Cert)
  | failed
deriving DecidableEq

/-- A connection attempt: its address and policy, where it stands, and the address's version as it
    last saw it. -/
structure Attempt (Cert : Type) where
  key : String
  policy : Policy
  phase : AttemptPhase Cert
  version : Nat
deriving DecidableEq

/-- What happens to the pins, by attempt and address. -/
inductive PinEvent (Cert : Type)
  | lookedUp (id : Nat) (key : String)
  | pinned (id : Nat) (key : String) (cert : Cert)
  | retrustUsed (id : Nat) (key : String)
  | accepted (id : Nat) (key : String) (cert : Cert)
  | reported (key : String) (fingerprint : String)
  | retrusted (key : String)
deriving DecidableEq

/-- The store and the attempts; for the record how often what is known of an address changed, and
    the log. -/
structure PinState (Cert : Type) where
  store : PinStore
  attempts : Nat → Option (Attempt Cert) := fun _ => none
  version : String → Nat := fun _ => 0
  log : List (PinEvent Cert) := []

/-- The steps. -/
inductive PinAct (Cert : Type)
  | lookUp (id : Nat) (host : String) (port : Nat)
  | verifyServerCert (id : Nat) (cert : Cert)
  | complete (id : Nat)
  | abort (id : Nat)
  | setExpected (host : String) (port : Nat) (fingerprint : String)
  | retrust (host : String) (port : Nat)

variable {Cert : Type} (fingerprintHex : Cert → String)

namespace PinState

/-- Whether a policy lets a certificate pass. -/
def permits (policy : Policy) (cert : Cert) : Bool :=
  match policy with
  | .exact expected => expected = fingerprintHex cert
  | .tofu => true

/-- The check of a certificate that passes. -/
def passCheck (s : PinState Cert) (id : Nat) (a : Attempt Cert) (cert : Cert) : PinState Cert :=
  let before := s.store.ensureLoaded
  let fp := fingerprintHex cert
  let pins : List (PinEvent Cert) :=
    if before.pins a.key = some fp then [] else [.pinned id a.key cert]
  let used : List (PinEvent Cert) := if before.retrusted a.key then [.retrustUsed id a.key] else []
  let version := s.version a.key + (pins ++ used).length
  { s with
    store := s.store.recordSeen a.key fp
    attempts := update s.attempts id (some { a with phase := .checked cert, version })
    version := update s.version a.key version
    log := pins ++ used ++ s.log }

/-- One step; what does not apply changes nothing. -/
def perform (s : PinState Cert) : PinAct Cert → PinState Cert
  | .lookUp id host port =>
    match s.attempts id with
    | some _ => s
    | none =>
      let key := PinStore.key host port
      let (policy, store) := s.store.policyFor key
      { s with
        store
        attempts := update s.attempts id (some ⟨key, policy, .lookedUp, s.version key⟩)
        log := .lookedUp id key :: s.log }
  | .verifyServerCert id cert =>
    match s.attempts id with
    | some ⟨key, policy, .lookedUp, version⟩ =>
      if permits fingerprintHex policy cert then
        s.passCheck fingerprintHex id ⟨key, policy, .lookedUp, version⟩ cert
      else { s with attempts := update s.attempts id (some ⟨key, policy, .failed, version⟩) }
    | _ => s
  | .complete id =>
    match s.attempts id with
    | some ⟨key, policy, .checked cert, version⟩ =>
      { s with
        attempts := update s.attempts id (some ⟨key, policy, .completed cert, version⟩)
        log := .accepted id key cert :: s.log }
    | _ => s
  | .abort id =>
    match s.attempts id with
    | some ⟨key, policy, .lookedUp, version⟩ | some ⟨key, policy, .checked _, version⟩ =>
      { s with attempts := update s.attempts id (some ⟨key, policy, .failed, version⟩) }
    | _ => s
  | .setExpected host port fingerprint =>
    if fingerprint.isEmpty then s
    else
      let key := PinStore.key host port
      { s with
        store := s.store.setExpected key fingerprint
        version := update s.version key (s.version key +
          if s.store.expected key = some fingerprint.toLower then 0 else 1)
        log := .reported key fingerprint.toLower :: s.log }
  | .retrust host port =>
    let key := PinStore.key host port
    { s with
      store := s.store.retrust key
      version := update s.version key (s.version key + 1)
      log := .retrusted key :: s.log }

/-- The runs, from any file. -/
def pinSystem : System (PinState Cert) (PinAct Cert) where
  init s := ∃ file, s = { store := { file } }
  step s a s' := s' = s.perform fingerprintHex a

/-! ## What pinning is for -/

/-- A certificate is accepted for an address. -/
def Accepts (k : String) (cert : Cert) (e : PinEvent Cert) : Prop := ∃ id, e = .accepted id k cert

/-- The user trusts an address anew, or the server reports a fingerprint. -/
def Reopens (k fp : String) (e : PinEvent Cert) : Prop := e = .retrusted k ∨ e = .reported k fp

/-- What pinning is for. -/
structure PinsHold (log : List (PinEvent Cert)) : Prop where
  /-- A certificate is accepted only if, since any other was, the address was trusted anew or it was
      reported. -/
  bound : EachAfter (fun past e => ∀ k cert, Accepts k cert e → ∀ other ≠ cert,
    FollowedBy (Accepts k other) (Reopens k (fingerprintHex cert)) past) log
  /-- A certificate is pinned only after a handshake with it. -/
  proved : EachAfter (fun past e => ∀ id k cert, e = .pinned id k cert →
    ∃ e' ∈ past, Accepts k cert e') log
  /-- A re-trust is used up only by an attempt that looked it up. -/
  used : EachAfter (fun past e => ∀ id k, e = .retrustUsed id k →
    FollowedBy (· = .retrusted k) (· = .lookedUp id k) past) log

/-- A check that passes finds what is known as its attempt did, no other fingerprint reported, and
    the certificate pinned or proved; a handshake completes with what is known as its check left it.
    -/
def Fresh (s : PinState Cert) : PinAct Cert → Prop
  | .verifyServerCert id cert => ∀ a, s.attempts id = some a →
      permits fingerprintHex a.policy cert = true → a.version = s.version a.key ∧
        (∀ fp, s.store.expected a.key = some fp → fp = fingerprintHex cert) ∧
        (s.store.ensureLoaded.pins a.key = some (fingerprintHex cert) ∨
          ∃ id' a', s.attempts id' = some a' ∧ a'.key = a.key ∧ a'.phase = .completed cert)
  | .complete id => ∀ a, s.attempts id = some a → a.version = s.version a.key
  | _ => True

end PinState

/-! ## The store -/

namespace PinStore

variable (s : PinStore) (k : String)

@[simp] theorem ensureLoaded_ensureLoaded : s.ensureLoaded.ensureLoaded = s.ensureLoaded := by
  unfold ensureLoaded
  cases h : s.loaded
  · rfl
  · simp only [if_true, h]

/-- What a lookup finds. -/
def now : Policy := s.ensureLoaded.policy k

@[simp] theorem now_ensureLoaded : s.ensureLoaded.now k = s.now k := by
  rw [now, ensureLoaded_ensureLoaded, now]

theorem ensureLoaded_recordSeen (fp : String) :
    (s.recordSeen k fp).ensureLoaded = s.recordSeen k fp := by
  have hloaded : s.ensureLoaded.loaded = true := by
    unfold ensureLoaded
    split
    · assumption
    · rfl
  unfold recordSeen persist
  simp only
  split <;> exact if_pos hloaded

theorem ensureLoaded_retrust : (s.retrust k).ensureLoaded = s.retrust k := by
  have hloaded : s.ensureLoaded.loaded = true := by
    unfold ensureLoaded
    split
    · assumption
    · rfl
  exact if_pos hloaded

theorem expected_ensureLoaded : s.ensureLoaded.expected = s.expected := by
  unfold ensureLoaded
  split <;> rfl

theorem retrusted_ensureLoaded : s.ensureLoaded.retrusted = s.retrusted := by
  unfold ensureLoaded
  split <;> rfl

theorem ensureLoaded_setExpected (fp : String) :
    (s.setExpected k fp).ensureLoaded = s.ensureLoaded.setExpected k fp := by
  unfold ensureLoaded setExpected
  split <;> rfl

variable {s k}

theorem now_setExpected_ne {k' fp : String} (h : k' ≠ k) :
    (s.setExpected k fp).now k' = s.now k' := by
  rw [now, ensureLoaded_setExpected, now]
  simp only [policy, setExpected, update_of_ne h]

theorem now_setExpected {fp : String} :
    (s.setExpected k fp).now k = if s.retrusted k then .tofu else .exact fp.toLower := by
  rw [now, ensureLoaded_setExpected]
  simp only [policy, setExpected, update_self, retrusted_ensureLoaded]

theorem now_setExpected_of_exact {fp fp' : String} (h : s.now k = .exact fp') :
    (s.setExpected k fp).now k = .exact fp.toLower := by
  rw [now_setExpected, if_neg]
  intro hre
  rw [now, policy, retrusted_ensureLoaded, if_pos hre] at h
  exact nomatch h

theorem now_recordSeen_ne {k' fp : String} (h : k' ≠ k) :
    (s.recordSeen k fp).now k' = s.now k' := by
  rw [now, ensureLoaded_recordSeen, now, recordSeen, persist]
  simp only
  split <;> simp only [policy, update_of_ne h]

/-- After a passed check what was reported is enforced, else what was seen. -/
theorem now_recordSeen {fp : String} (h : ∀ e, s.expected k = some e → e = fp) :
    (s.recordSeen k fp).now k = .exact fp := by
  have hexp : s.ensureLoaded.expected k = none ∨ s.ensureLoaded.expected k = some fp := by
    rw [expected_ensureLoaded]
    rcases he : s.expected k with _ | e
    · exact .inl rfl
    · exact .inr (congrArg some (h e he))
  rw [now, ensureLoaded_recordSeen, recordSeen, persist]
  simp only
  split
  · rename_i hpin
    rcases hexp with he | he <;> simp [policy, he, hpin]
  · rcases hexp with he | he <;> simp [policy, he]

theorem now_of_pinned {fp : String} (h : ∀ e, s.expected k = some e → e = fp)
    (hpin : s.ensureLoaded.pins k = some fp) (hre : s.ensureLoaded.retrusted k = false) :
    s.now k = .exact fp := by
  rw [now, policy, hre, if_neg Bool.false_ne_true, expected_ensureLoaded]
  rcases he : s.expected k with _ | e
  · simp only [hpin]
  · simp only [h e he]

theorem now_retrust_ne {k' : String} (h : k' ≠ k) : (s.retrust k).now k' = s.now k' := by
  rw [now, ensureLoaded_retrust, now, retrust, persist]
  simp only [policy, update_of_ne h]

end PinStore
namespace PinState

variable {fingerprintHex} {s : PinState Cert} {k : String}

/-! ## What a run keeps -/

/-- An attempt up to date looked up what a lookup finds now, with no re-trust since; after its check
    its certificate is enforced. -/
def UpToDate (fingerprintHex : Cert → String) (s : PinState Cert) (id : Nat) (a : Attempt Cert) :
    Prop :=
  match a.phase with
  | .lookedUp => a.policy = s.store.now a.key ∧
      FollowedBy (· = .retrusted a.key) (· = .lookedUp id a.key) s.log
  | .checked cert => s.store.now a.key = .exact (fingerprintHex cert)
  | _ => True

/-- Since a certificate was accepted its address was trusted anew, or it is enforced, or what is
    enforced was reported since. -/
def Enforced (fingerprintHex : Cert → String) (s : PinState Cert) (k : String) (cert : Cert) :
    Prop :=
  FollowedBy (Accepts k cert) (· = .retrusted k) s.log ∨
    ∃ fp, s.store.now k = .exact fp ∧
      (fingerprintHex cert = fp ∨ FollowedBy (Accepts k cert) (Reopens k fp) s.log)

/-- What holds in every state of such a run. -/
structure Ok (fingerprintHex : Cert → String) (s : PinState Cert) : Prop where
  version : ∀ id a, s.attempts id = some a → a.version ≤ s.version a.key
  upToDate : ∀ id a, s.attempts id = some a → a.version = s.version a.key →
    UpToDate fingerprintHex s id a
  enforced : ∀ k cert, Enforced fingerprintHex s k cert
  completed : ∀ id a cert, s.attempts id = some a → a.phase = .completed cert →
    ∃ e ∈ s.log, Accepts a.key cert e
  log : PinsHold fingerprintHex s.log

theorem Enforced.append {l : List (PinEvent Cert)} {cert : Cert} {s' : PinState Cert}
    (h : Enforced fingerprintHex s k cert) (hlog : s'.log = l ++ s.log)
    (hnow : s'.store.now k = s.store.now k) (hnew : ∀ e ∈ l, ¬ Accepts k cert e) :
    Enforced fingerprintHex s' k cert := by
  rw [Enforced, hlog, hnow]
  rcases h with h | ⟨fp, hfp, h | h⟩
  · exact .inl (h.append hnew)
  · exact .inr ⟨fp, hfp, .inl h⟩
  · exact .inr ⟨fp, hfp, .inr (h.append hnew)⟩

theorem UpToDate.append {l : List (PinEvent Cert)} {id : Nat} {a : Attempt Cert}
    {s' : PinState Cert} (h : UpToDate fingerprintHex s id a) (hlog : s'.log = l ++ s.log)
    (hnow : s'.store.now a.key = s.store.now a.key) (hnew : .retrusted a.key ∉ l) :
    UpToDate fingerprintHex s' id a := by
  unfold UpToDate at h ⊢
  split
  · rename_i hphase
    rw [hphase] at h
    rw [hnow, hlog]
    exact ⟨h.1, h.2.append fun e he heq => hnew (heq ▸ he)⟩
  · rename_i hphase
    rw [hphase] at h
    exact hnow.trans h
  · trivial

/-- A step on one address without an acceptance: what is known elsewhere, and here if the version
    stays, is as before. -/
theorem Ok.frame {s' : PinState Cert} {l : List (PinEvent Cert)} (h : Ok fingerprintHex s)
    (hlog : s'.log = l ++ s.log) (hacc : ∀ e ∈ l, ∀ k cert, ¬ Accepts k cert e)
    (k₀ : String)
    (hother : ∀ k ≠ k₀, s'.store.now k = s.store.now k ∧ s'.version k = s.version k ∧
      .retrusted k ∉ l)
    (hversion : s.version k₀ ≤ s'.version k₀)
    (hsame : s'.version k₀ = s.version k₀ →
      s'.store.now k₀ = s.store.now k₀ ∧ .retrusted k₀ ∉ l)
    (hattempts : ∀ id a, s'.attempts id = some a → s.attempts id = some a ∨
      a.version ≤ s'.version a.key ∧ (∀ cert, a.phase ≠ .completed cert) ∧
        (a.version = s'.version a.key → UpToDate fingerprintHex s' id a))
    (henforced : ∀ cert, Enforced fingerprintHex s' k₀ cert)
    (hproved : EachAfter (fun past e => ∀ id k cert, e = .pinned id k cert →
      ∃ e' ∈ past, Accepts k cert e') s'.log)
    (hused : EachAfter (fun past e => ∀ id k, e = .retrustUsed id k →
      FollowedBy (· = .retrusted k) (· = .lookedUp id k) past) s'.log) :
    Ok fingerprintHex s' := by
  have hle : ∀ k, s.version k ≤ s'.version k := by
    intro k
    by_cases hk : k = k₀
    · exact hk ▸ hversion
    · exact Nat.le_of_eq (hother k hk).2.1.symm
  refine ⟨fun id a ha => ?_, fun id a ha hv => ?_, fun k cert => ?_, fun id a cert ha hc => ?_,
    ⟨?_, hproved, hused⟩⟩
  · rcases hattempts id a ha with ha | ⟨hle', _⟩
    · exact Nat.le_trans (h.version id a ha) (hle _)
    · exact hle'
  · rcases hattempts id a ha with ha | ⟨_, _, hup⟩
    · have hv' : a.version = s.version a.key :=
        Nat.le_antisymm (h.version id a ha) (hv ▸ hle a.key)
      have hsame' : s'.store.now a.key = s.store.now a.key ∧ .retrusted a.key ∉ l := by
        by_cases hk : a.key = k₀
        · rw [hk] at hv hv' ⊢
          exact hsame (hv.symm.trans hv')
        · exact ⟨(hother _ hk).1, (hother _ hk).2.2⟩
      exact (h.upToDate id a ha hv').append hlog hsame'.1 hsame'.2
    · exact hup hv
  · by_cases hk : k = k₀
    · exact hk ▸ henforced cert
    · exact (h.enforced k cert).append hlog (hother k hk).1 fun e he => hacc e he k cert
  · rcases hattempts id a ha with ha | ⟨_, hne, _⟩
    · obtain ⟨e, he, hacc⟩ := h.completed id a cert ha hc
      exact ⟨e, hlog ▸ mem_append_right _ he, hacc⟩
    · exact absurd hc (hne cert)
  · rw [hlog]
    exact h.log.bound.append fun e he _ k cert ha => absurd ha (hacc e he k cert)

theorem update_attempts {id id' : Nat} {a a' : Attempt Cert}
    (h : update s.attempts id (some a) id' = some a') :
    (id' = id ∧ a' = a) ∨ s.attempts id' = some a' := by
  by_cases hid : id' = id
  · subst hid
    rw [update_self] at h
    exact .inl ⟨rfl, (Option.some.inj h).symm⟩
  · rw [update_of_ne hid] at h
    exact .inr h

theorem ok_lookUp (h : Ok fingerprintHex s) (id : Nat) (host : String) (port : Nat) :
    Ok fingerprintHex (s.perform fingerprintHex (.lookUp id host port)) := by
  rw [perform]
  cases hid : s.attempts id with
  | some a => exact h
  | none =>
    simp only [PinStore.policyFor]
    refine h.frame (l := [.lookedUp id (PinStore.key host port)]) rfl ?_ (PinStore.key host port)
      ?_ (Nat.le_refl _) ?_ ?_ ?_ (h.log.proved.cons nofun) (h.log.used.cons nofun)
    · rintro e he k cert ⟨_, rfl⟩
      exact nomatch mem_singleton.1 he
    · exact fun k _ => ⟨PinStore.now_ensureLoaded _ _, rfl, by simp⟩
    · exact fun _ => ⟨PinStore.now_ensureLoaded _ _, by simp⟩
    · intro id' a ha
      rcases update_attempts ha with ⟨rfl, rfl⟩ | ha
      · exact .inr ⟨Nat.le_refl _, nofun, fun _ => ⟨(PinStore.now_ensureLoaded _ _).symm,
          .of_event nofun rfl⟩⟩
      · exact .inl ha
    · intro cert
      refine (h.enforced _ cert).append (l := [.lookedUp id (PinStore.key host port)]) rfl
        (PinStore.now_ensureLoaded _ _) ?_
      rintro e he ⟨_, rfl⟩
      exact nomatch mem_singleton.1 he

theorem ok_fail (h : Ok fingerprintHex s) {id : Nat} {a : Attempt Cert}
    (ha : s.attempts id = some a) :
    Ok fingerprintHex
      { s with attempts := update s.attempts id (some { a with phase := .failed }) } := by
  refine h.frame (l := []) rfl nofun "" (fun k _ => ⟨rfl, rfl, nofun⟩) (Nat.le_refl _)
    (fun _ => ⟨rfl, nofun⟩) ?_ (h.enforced "") h.log.proved h.log.used
  intro id' a' ha'
  rcases update_attempts ha' with ⟨rfl, rfl⟩ | ha'
  · have hle := h.version _ a ha
    exact .inr ⟨hle, nofun, fun _ => trivial⟩
  · exact .inl ha'

theorem ok_passCheck (h : Ok fingerprintHex s) {id : Nat} {a : Attempt Cert} {cert : Cert}
    (ha : s.attempts id = some a) (hphase : a.phase = .lookedUp)
    (hpass : permits fingerprintHex a.policy cert = true) (hversion : a.version = s.version a.key)
    (hexp : ∀ fp, s.store.expected a.key = some fp → fp = fingerprintHex cert)
    (hproved : s.store.ensureLoaded.pins a.key = some (fingerprintHex cert) ∨
      ∃ id' a', s.attempts id' = some a' ∧ a'.key = a.key ∧ a'.phase = .completed cert) :
    Ok fingerprintHex (s.passCheck fingerprintHex id a cert) := by
  have hup := h.upToDate id a ha hversion
  rw [UpToDate, hphase] at hup
  obtain ⟨hpolicy, hlooked⟩ := hup
  have hnow : (s.store.recordSeen a.key (fingerprintHex cert)).now a.key =
      .exact (fingerprintHex cert) := PinStore.now_recordSeen hexp
  -- What was enforced for an accepted certificate before the check is so after it.
  have hkept : ∀ fp, s.store.now a.key = .exact fp → fp = fingerprintHex cert := by
    intro fp hfp
    rw [hpolicy, hfp] at hpass
    exact of_decide_eq_true hpass
  rw [passCheck]
  generalize hpins : (if s.store.ensureLoaded.pins a.key = some (fingerprintHex cert) then []
    else [PinEvent.pinned id a.key cert]) = pins
  generalize hused : (if s.store.ensureLoaded.retrusted a.key then
    [PinEvent.retrustUsed id a.key] else []) = used
  have hmem : ∀ e ∈ pins ++ used, e = .pinned id a.key cert ∨ e = .retrustUsed id a.key := by
    intro e he
    rcases mem_append.1 he with he | he
    · rw [← hpins] at he
      split at he
      · exact nomatch he
      · exact .inl (mem_singleton.1 he)
    · rw [← hused] at he
      split at he
      · exact .inr (mem_singleton.1 he)
      · exact nomatch he
  have hacc : ∀ e ∈ pins ++ used, ∀ k cert, ¬ Accepts k cert e := by
    rintro e he k cert ⟨_, rfl⟩
    rcases hmem _ he with h | h <;> cases h
  have hretrusted : ∀ k, .retrusted k ∉ pins ++ used := by
    intro k he
    rcases hmem _ he with h | h <;> cases h
  refine h.frame rfl hacc a.key ?_ ?_ ?_ ?_ ?_ ?_ ?_
  · exact fun k hk => ⟨PinStore.now_recordSeen_ne hk, update_of_ne hk _ _, hretrusted k⟩
  · simp only [update_self]
    exact Nat.le_add_right _ _
  · -- Without a change the certificate was pinned, and no re-trust was due.
    simp only [update_self]
    intro hv
    refine ⟨?_, hretrusted _⟩
    have hnil : pins ++ used = [] := length_eq_zero_iff.1 (by omega)
    obtain ⟨hpins', hused'⟩ := append_eq_nil_iff.1 hnil
    have hpin : s.store.ensureLoaded.pins a.key = some (fingerprintHex cert) := by
      by_contra hpin
      rw [if_neg hpin] at hpins
      exact nomatch hpins.trans hpins'
    have hre : s.store.ensureLoaded.retrusted a.key = false := by
      by_contra hre
      rw [if_pos (by simpa using hre)] at hused
      exact nomatch hused.trans hused'
    exact hnow.trans (PinStore.now_of_pinned hexp hpin hre).symm
  · intro id' a' ha'
    rcases update_attempts ha' with ⟨rfl, rfl⟩ | ha'
    · refine .inr ⟨?_, nofun, fun _ => hnow⟩
      simp only [update_self]
      exact Nat.le_refl _
    · exact .inl ha'
  · intro cert'
    rcases h.enforced a.key cert' with hk | ⟨fp, hfp, hk⟩
    · exact .inl (hk.append fun e he => hacc e he _ _)
    · refine .inr ⟨fp, ?_, hk.imp_right fun hk => hk.append fun e he => hacc e he _ _⟩
      rw [hkept fp hfp]
      exact hnow
  · simp only [append_assoc]
    have hlog : EachAfter (fun past e => ∀ id k cert, e = .pinned id k cert →
        ∃ e' ∈ past, Accepts k cert e') (used ++ s.log) := by
      rw [← hused]
      split
      · exact h.log.proved.cons nofun
      · exact h.log.proved
    rw [← hpins]
    split
    · exact hlog
    · rename_i hpin
      refine hlog.cons ?_
      rintro _ _ _ ⟨⟩
      obtain ⟨id', a', ha', hk, hc⟩ := hproved.resolve_left hpin
      obtain ⟨e, he, hacc⟩ := h.completed id' a' cert ha' hc
      exact ⟨e, mem_append_right _ he, hk ▸ hacc⟩
  · simp only [append_assoc]
    have hlog : EachAfter (fun past e => ∀ id k, e = .retrustUsed id k →
        FollowedBy (· = .retrusted k) (· = .lookedUp id k) past) (used ++ s.log) := by
      rw [← hused]
      split
      · refine h.log.used.cons ?_
        rintro _ _ ⟨⟩
        exact hlooked
      · exact h.log.used
    refine hlog.append fun e he _ _ _ heq => ?_
    subst heq
    rw [← hpins] at he
    split at he
    · exact nomatch he
    · exact nomatch mem_singleton.1 he

theorem ok_complete (h : Ok fingerprintHex s) {id : Nat} {a : Attempt Cert} {cert : Cert}
    (hinj : Injective fingerprintHex)
    (ha : s.attempts id = some a) (hphase : a.phase = .checked cert)
    (hversion : a.version = s.version a.key) :
    Ok fingerprintHex { s with
      attempts := update s.attempts id (some { a with phase := .completed cert })
      log := .accepted id a.key cert :: s.log } := by
  have hnow := h.upToDate id a ha hversion
  rw [UpToDate, hphase] at hnow
  refine ⟨fun id' a' ha' => ?_, fun id' a' ha' hv => ?_, fun k cert' => ?_,
    fun id' a' cert' ha' hc => ?_, ?_, h.log.proved.cons nofun, h.log.used.cons nofun⟩
  · rcases update_attempts ha' with ⟨rfl, rfl⟩ | ha'
    · exact h.version _ a ha
    · exact h.version _ _ ha'
  · rcases update_attempts ha' with ⟨rfl, rfl⟩ | ha'
    · trivial
    · exact (h.upToDate _ _ ha' hv).append (l := [_]) rfl rfl (by simp)
  · by_cases hk : k = a.key
    · subst hk
      by_cases hc : cert' = cert
      · exact .inr ⟨_, hnow, .inl (hc ▸ rfl)⟩
      · -- Another certificate is not what is enforced.
        have hne : ¬ Accepts a.key cert' (.accepted id a.key cert) := by
          rintro ⟨_, heq⟩
          cases heq
          exact hc rfl
        rcases h.enforced a.key cert' with hk | ⟨fp, hfp, hk⟩
        · exact .inl (hk.cons hne)
        · refine .inr ⟨fp, hfp, .inr ?_⟩
          rcases hk with hk | hk
          · have hfps : Policy.exact fp = .exact (fingerprintHex cert) := hfp.symm.trans hnow
            cases hfps
            exact absurd (hinj hk) hc
          · exact hk.cons hne
    · refine (h.enforced k cert').append (l := [.accepted id a.key cert]) rfl rfl ?_
      rintro e he ⟨_, rfl⟩
      cases mem_singleton.1 he
      exact hk rfl
  · rcases update_attempts ha' with ⟨rfl, rfl⟩ | ha'
    · cases hc
      exact ⟨_, mem_cons_self, _, rfl⟩
    · obtain ⟨e, he, hacc⟩ := h.completed _ _ _ ha' hc
      exact ⟨e, mem_cons_of_mem _ he, hacc⟩
  · refine h.log.bound.cons ?_
    rintro k cert' ⟨_, heq⟩ other hother
    cases heq
    rcases h.enforced a.key other with hk | ⟨fp, hfp, hk⟩
    · exact hk.mono fun e => .inl
    · have hfps : Policy.exact fp = .exact (fingerprintHex cert) := hfp.symm.trans hnow
      cases hfps
      exact hk.resolve_left fun heq => hother (hinj heq)

theorem ok_setExpected (h : Ok fingerprintHex s) (host : String) (port : Nat) (fp : String) :
    Ok fingerprintHex (s.perform fingerprintHex (.setExpected host port fp)) := by
  rw [perform]
  split
  · exact h
  generalize PinStore.key host port = key
  simp only
  refine h.frame (l := [.reported key fp.toLower]) rfl ?_ key ?_ ?_ ?_ ?_ ?_
    (h.log.proved.cons nofun) (h.log.used.cons nofun)
  · rintro e he k cert ⟨_, rfl⟩
    exact nomatch mem_singleton.1 he
  · exact fun k hk => ⟨PinStore.now_setExpected_ne hk, update_of_ne hk _ _, by simp⟩
  · simp only [update_self]
    exact Nat.le_add_right _ _
  · -- The version stays only when the report is what was expected already.
    simp only [update_self]
    intro hv
    refine ⟨?_, by simp⟩
    have hexp : s.store.expected key = some fp.toLower := by
      by_contra hexp
      rw [if_neg hexp] at hv
      omega
    rw [PinStore.setExpected, ← hexp, update_eq_self]
  · exact fun id a ha => .inl ha
  · intro cert
    rcases h.enforced key cert with hk | ⟨fp', hfp, _⟩
    · exact .inl (hk.cons (by rintro ⟨_, ⟨⟩⟩))
    · refine .inr ⟨fp.toLower, ?_, .inr (.of_event (by rintro ⟨_, ⟨⟩⟩) (.inr rfl))⟩
      exact PinStore.now_setExpected_of_exact hfp

theorem ok_retrust (h : Ok fingerprintHex s) (host : String) (port : Nat) :
    Ok fingerprintHex (s.perform fingerprintHex (.retrust host port)) := by
  rw [perform]
  generalize PinStore.key host port = key
  refine h.frame (l := [.retrusted key]) rfl ?_ key ?_ ?_ ?_ ?_ ?_
    (h.log.proved.cons nofun) (h.log.used.cons nofun)
  · rintro e he k cert ⟨_, rfl⟩
    exact nomatch mem_singleton.1 he
  · refine fun k hk => ⟨PinStore.now_retrust_ne hk, update_of_ne hk _ _, ?_⟩
    simpa using hk
  · simp only [update_self]
    exact Nat.le_succ _
  · simp only [update_self]
    intro hv
    omega
  · exact fun id a ha => .inl ha
  · exact fun cert => .inl (.of_event (by rintro ⟨_, ⟨⟩⟩) rfl)

theorem ok_step (hinj : Injective fingerprintHex) (h : Ok fingerprintHex s) (a : PinAct Cert)
    (hfresh : Fresh fingerprintHex s a) : Ok fingerprintHex (s.perform fingerprintHex a) := by
  cases a with
  | lookUp id host port => exact ok_lookUp h id host port
  | verifyServerCert id cert =>
    rw [perform]
    split
    · rename_i key policy version ha
      split
      · rename_i hpass
        obtain ⟨hversion, hexp, hproved⟩ := hfresh _ ha hpass
        exact ok_passCheck h ha rfl hpass hversion hexp hproved
      · exact ok_fail h ha
    · exact h
  | complete id =>
    rw [perform]
    split
    · rename_i ha
      exact ok_complete h hinj ha rfl (hfresh _ ha)
    · exact h
  | abort id =>
    rw [perform]
    split
    · rename_i ha
      exact ok_fail h ha
    · rename_i ha
      exact ok_fail h ha
    · exact h
  | setExpected host port fp => exact ok_setExpected h host port fp
  | retrust host port => exact ok_retrust h host port

/-- The state after some steps. -/
def after (fingerprintHex : Cert → String) (file : Option (String → Option String))
    (acts : List (PinAct Cert)) : PinState Cert :=
  acts.foldl (·.perform fingerprintHex) { store := { file } }

theorem reachable_foldl (acts : List (PinAct Cert))
    (h : (pinSystem fingerprintHex).Reachable s) :
    (pinSystem fingerprintHex).Reachable (acts.foldl (·.perform fingerprintHex) s) := by
  induction acts generalizing s with
  | nil => exact h
  | cons a acts ih => exact ih (.step a h rfl)

theorem reachable_after (file : Option (String → Option String)) (acts : List (PinAct Cert)) :
    (pinSystem fingerprintHex).Reachable (after fingerprintHex file acts) :=
  reachable_foldl acts (.init ⟨file, rfl⟩)

theorem broken {log : List (PinEvent String)} (file : Option (String → Option String))
    (acts : List (PinAct String)) (hlog : (after id file acts).log = log)
    (h : ¬ PinsHold id log) :
    ∃ s, (pinSystem (id : String → String)).Reachable s ∧ s.log = log ∧ ¬ PinsHold id s.log :=
  ⟨_, reachable_after file acts, hlog, hlog ▸ h⟩

end PinState
end Decibell
