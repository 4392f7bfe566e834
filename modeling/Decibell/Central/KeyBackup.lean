import Decibell.Community.Text
import Decibell.Lib.Run
import Decibell.Lib.Table
import Mathlib.Algebra.Group.Nat.Defs

/-!
# Key bundles and their backup

An account publishes generations of its keys, and keeps one backup of them under its passphrase. A
request publishes a bundle, stores a backup, or both, or signs the current bundle anew, in a few
transactions that may each fail, and the devices of the account send requests at the same time.
-/

namespace Decibell.Central

open Lib

/-! ## The tables -/

/-- A published bundle. -/
structure E2eeKeyRow where
  keyId : Nat
  signedName : String
  dhPub : Bytes
  signPub : Bytes
  signature : Bytes
  createdAt : Int
  binding : Nat
deriving DecidableEq

structure E2eeBackup where
  keyId : Nat
  blob : Bytes
  updatedAt : Int
deriving DecidableEq

/-- What the database has of one account. -/
structure E2eeTables where
  keys : Table E2eeKeyRow.keyId := .empty
  backup : Option E2eeBackup := none

instance : DecidableEq E2eeTables := fun t t' =>
  decidable_of_iff (t.keys.rows = t'.keys.rows ∧ t.backup = t'.backup) <| by
    constructor
    · rintro ⟨hkeys, hbackup⟩
      cases t
      cases t'
      exact congrArg₂ _ (Table.ext_rows hkeys) hbackup
    · rintro rfl
      exact ⟨rfl, rfl⟩

/-- A bundle in a request. -/
structure E2eeKeyBundle where
  keyId : Nat := 0
  dhPub : Bytes
  signPub : Bytes
  signature : Bytes
  binding : Nat := 2

/-- What the signature binds: the uid, or once the name. -/
def E2eeKeyBundle.bound (b : E2eeKeyBundle) : Nat := if b.binding = 2 then 2 else 1

/-- The largest value of an `INTEGER` column. -/
def maxInteger : Nat := 2 ^ 31 - 1

namespace E2eeTables

variable (t : E2eeTables)

/-- `COALESCE(MAX(key_id), 0)`. -/
def maxKeyId : Nat := (t.keys.rows.map (·.keyId)).foldr max 0

/-- Publishes the next generation: its id, or 0 if that failed. -/
def publishE2eeKeys (ok : Bool) (name : String) (b : E2eeKeyBundle) (now : Int) :
    E2eeTables × Nat :=
  let keyId := t.maxKeyId + 1
  if !ok || maxInteger < keyId then (t, 0)
  else
    match t.keys.insert
      { keyId
        signedName := name
        dhPub := b.dhPub
        signPub := b.signPub
        signature := b.signature
        createdAt := now
        binding := b.bound } with
    | none => (t, 0)
    | some keys => ({ t with keys }, keyId)

/-- Signs the current generation anew, if the bundle has its keys. -/
def rebindE2eeKeys (ok : Bool) (name : String) (b : E2eeKeyBundle) : E2eeTables × Bool :=
  if !ok then (t, false)
  else
    let current (r : E2eeKeyRow) : Bool :=
      r.keyId = b.keyId ∧ r.dhPub = b.dhPub ∧ r.signPub = b.signPub ∧ r.keyId = t.maxKeyId
    ({ t with
        keys := t.keys.updateWhere current fun r =>
          { r with signature := b.signature, binding := b.bound, signedName := name } },
      t.keys.rows.countP current = 1)

/-- The current generation. -/
def getE2eeKeys (ok : Bool) : Option E2eeKeyRow := if ok then t.keys.find? t.maxKeyId else none

def setE2eeBackup (ok : Bool) (keyId : Nat) (blob : Bytes) (now : Int) : E2eeTables × Bool :=
  if ok then ({ t with backup := some { keyId, blob, updatedAt := now } }, true) else (t, false)

end E2eeTables

/-! ## A request -/

structure E2eePublishKeysReq where
  bundle : Option E2eeKeyBundle := none
  backup : Bytes := []
  rebind : Bool := false

structure E2eePublishKeysRes where
  success : Bool
  message : String
  keyId : Nat
  /-- The generation that sessions are told of. -/
  announced : Option Nat := none

def maxE2eeBackup : Nat := 8 * 1024
def e2eePubLen : Nat := 32
def e2eeSigLen : Nat := 64

def E2eeKeyBundle.malformed (b : E2eeKeyBundle) : Bool :=
  b.dhPub.length ≠ e2eePubLen || b.signPub.length ≠ e2eePubLen ||
    b.signature.length ≠ e2eeSigLen || 2 < b.binding

/-- The call to the database that a request is at. -/
inductive KeyCall
  | rebind (b : E2eeKeyBundle)
  /-- The rebind did nothing: the generation is read for the answer. -/
  | notCurrent
  | publish (b : E2eeKeyBundle)
  /-- A backup alone belongs to the current generation. -/
  | current
  | backup (keyId : Nat)

namespace E2eePublishKeysReq

variable (req : E2eePublishKeysReq)

def refuse (message : String) (keyId : Nat) : KeyCall ⊕ E2eePublishKeysRes :=
  .inr { success := false, message, keyId }

/-- The checks before the first call. -/
def onPublishKeys : KeyCall ⊕ E2eePublishKeysRes :=
  if req.bundle.isNone && req.backup.isEmpty then refuse "Nothing to publish." 0
  else if maxE2eeBackup < req.backup.length then refuse "Backup too large." 0
  else if req.bundle.any (·.malformed) then refuse "Malformed key bundle." 0
  else
    match req.bundle with
    | none => if req.rebind then refuse "Malformed rebind." 0 else .inl .current
    | some b =>
      if req.rebind then
        if !req.backup.isEmpty || b.keyId = 0 then refuse "Malformed rebind." 0
        else .inl (.rebind b)
      else .inl (.publish b)

/-- All is stored. -/
def stored (keyId : Nat) : E2eePublishKeysRes where
  success := true
  message := ""
  keyId
  announced := if req.bundle.isSome then some keyId else none

/-- The generation is known: its backup is next, if there is one. -/
def storeBackup (keyId : Nat) : KeyCall ⊕ E2eePublishKeysRes :=
  if req.backup.isEmpty then .inr (req.stored keyId) else .inl (.backup keyId)

end E2eePublishKeysReq

open E2eePublishKeysReq (refuse)

/-- A call of a request of the device `name`: the tables, and what comes next. -/
def KeyCall.run (t : E2eeTables) (req : E2eePublishKeysReq) (name : String) (ok : Bool) (now : Int) :
    KeyCall → E2eeTables × (KeyCall ⊕ E2eePublishKeysRes)
  | .rebind b =>
    let done := t.rebindE2eeKeys ok name b
    (done.1, if done.2 then .inr (req.stored b.keyId) else .inl .notCurrent)
  | .notCurrent =>
    (t, refuse "Those aren't your current keys." (((t.getE2eeKeys ok).map (·.keyId)).getD 0))
  | .publish b =>
    let done := t.publishE2eeKeys ok name b now
    (done.1, if done.2 = 0 then refuse "Storage error." 0 else req.storeBackup done.2)
  | .current =>
    (t, match t.getE2eeKeys ok with
      | none => refuse "No published keys to back up." 0
      | some row => req.storeBackup row.keyId)
  | .backup keyId =>
    let done := t.setE2eeBackup ok keyId req.backup now
    (done.1, if done.2 then .inr (req.stored keyId) else refuse "Storage error." keyId)

/-! ## The requests of an account -/

/-- A request on its way. -/
structure KeyRequest where
  req : E2eePublishKeysReq
  name : String
  /-- The next call, or the answer. -/
  stage : KeyCall ⊕ E2eePublishKeysRes
  /-- It changed the tables; for the record only. -/
  wrote : Bool := false

/-- An account, and the requests of its devices. -/
structure KeyRun where
  tables : E2eeTables := {}
  requests : Nat → Option KeyRequest := fun _ => none
  /-- The generations a backup was stored of, for the record only. -/
  backedUp : List Nat := []

inductive KeyEvent
  | request (i : Nat) (req : E2eePublishKeysReq) (name : String)
  /-- The next call of a request; `ok` if it does not fail. -/
  | call (i : Nat) (ok : Bool) (now : Int)

namespace KeyRun

variable (st : KeyRun)

/-- A request comes to one of the devices' connections. -/
def receive (i : Nat) (req : E2eePublishKeysReq) (name : String) : KeyRun :=
  if (st.requests i).isSome then st
  else
    { st with
      requests := Function.update st.requests i
        (some { req, name, stage := req.onPublishKeys }) }

def perform (i : Nat) (r : KeyRequest) (call : KeyCall) (ok : Bool) (now : Int) : KeyRun :=
  let done := call.run st.tables r.req r.name ok now
  { tables := done.1
    requests := Function.update st.requests i
      (some { r with stage := done.2, wrote := r.wrote || done.1 ≠ st.tables })
    backedUp :=
      match call with
      | .backup keyId => if ok then keyId :: st.backedUp else st.backedUp
      | _ => st.backedUp }

def step : KeyEvent → KeyRun
  | .request i req name => st.receive i req name
  | .call i ok now =>
    match st.requests i with
    | none => st
    | some r =>
      match r.stage with
      | .inl call => st.perform i r call ok now
      | .inr _ => st

end KeyRun

/-- The requests of an account's devices, in any order; their calls may fail. -/
def keySystem : System KeyRun KeyEvent where
  init st := (∀ i, st.requests i = none) ∧ st.backedUp = (st.tables.backup.map (·.keyId)).toList
  step st e st' := st' = st.step e

/-- A stored backup is of the newest generation a backup was stored of. -/
structure KeyRun.Newest (st : KeyRun) : Prop where
  stored : ∀ b, st.tables.backup = some b → b.keyId ∈ st.backedUp
  newest : ∀ keyId ∈ st.backedUp, ∃ b, st.tables.backup = some b ∧ keyId ≤ b.keyId

/-- No backup fails once its keys are published, or replaces one of a newer generation. -/
def KeyRun.Careful (st : KeyRun) : KeyEvent → Prop
  | .request _ _ _ => True
  | .call i ok _ => ∀ r keyId, st.requests i = some r → r.stage = .inl (.backup keyId) →
      (ok = false → r.req.bundle = none) ∧
      (ok = true → ∀ b, st.tables.backup = some b → b.keyId ≤ keyId)

/-- What a request has written: before its last call, at most its backup's bundle. -/
def KeyRequest.Kept (r : KeyRequest) : Prop :=
  match r.stage with
  | .inl (.publish b) => r.wrote = false ∧ r.req.bundle = some b
  | .inl (.backup _) => r.wrote = true → r.req.bundle ≠ none
  | .inl _ => r.wrote = false
  | .inr res => res.success = false → r.wrote = false

variable {t : E2eeTables} {req : E2eePublishKeysReq} {name : String} {ok : Bool} {now : Int}

/-! ## One call -/

theorem kept_receive : KeyRequest.Kept { req, name, stage := req.onPublishKeys } := by
  have hbundle : ∀ b, req.onPublishKeys = .inl (.publish b) → req.bundle = some b := by
    intro b h
    rw [E2eePublishKeysReq.onPublishKeys] at h
    repeat' split at h
    all_goals cases h
    assumption
  rw [KeyRequest.Kept]
  split
  · exact ⟨rfl, hbundle _ ‹_›⟩
  · exact fun h => by cases h
  · rfl
  · exact fun _ => rfl

theorem publishE2eeKeys_eq_zero {b : E2eeKeyBundle}
    (h : (t.publishE2eeKeys ok name b now).2 = 0) : (t.publishE2eeKeys ok name b now).1 = t := by
  rw [E2eeTables.publishE2eeKeys] at h ⊢
  split
  · rfl
  · rename_i hok
    rw [if_neg hok] at h
    split
    · rfl
    · rename_i keys hkeys
      rw [hkeys] at h
      cases h

theorem backup_publishE2eeKeys {b : E2eeKeyBundle} :
    (t.publishE2eeKeys ok name b now).1.backup = t.backup := by
  rw [E2eeTables.publishE2eeKeys]
  split
  · rfl
  · split <;> rfl

theorem rebindE2eeKeys_eq_false {b : E2eeKeyBundle}
    (h : (t.rebindE2eeKeys ok name b).2 = false) : (t.rebindE2eeKeys ok name b).1 = t := by
  rw [E2eeTables.rebindE2eeKeys] at h ⊢
  split
  · rfl
  · rename_i hok
    rw [if_neg hok] at h
    have hone := of_decide_eq_false h
    have hle : ∀ p : E2eeKeyRow → Bool, (∀ r, p r = true → r.keyId = b.keyId) →
        t.keys.rows.countP p ≤ 1 := fun p hp => Table.countP_le_one hp
    have hnone := Nat.lt_one_iff.1 (Nat.lt_of_le_of_ne
      (hle _ fun r hr => (of_decide_eq_true hr).1) hone)
    exact congrArg (fun keys => { t with keys }) (Table.updateWhere_of_none hnone)

theorem backup_rebindE2eeKeys {b : E2eeKeyBundle} :
    (t.rebindE2eeKeys ok name b).1.backup = t.backup := by
  rw [E2eeTables.rebindE2eeKeys]
  split <;> rfl

namespace KeyRun

variable {st : KeyRun} {i : Nat} {r : KeyRequest} {call : KeyCall}

theorem kept_of_refuse {req : E2eePublishKeysReq} {message : String} {keyId : Nat} :
    KeyRequest.Kept { req, name, stage := refuse message keyId } := fun _ => rfl

theorem kept_storeBackup {keyId : Nat} {wrote : Bool} (h : wrote = true → req.bundle ≠ none) :
    KeyRequest.Kept { req, name, stage := req.storeBackup keyId, wrote } := by
  rw [E2eePublishKeysReq.storeBackup]
  split
  · exact fun h => by cases h
  · exact h

theorem kept_run {wrote : Bool} (hkept : KeyRequest.Kept { req, name, stage := .inl call, wrote })
    (hcareful : ∀ keyId, call = .backup keyId → ok = false → req.bundle = none) :
    KeyRequest.Kept
      { req
        name
        stage := (call.run t req name ok now).2
        wrote := wrote || (call.run t req name ok now).1 ≠ t } := by
  cases call with
  | rebind b =>
    obtain rfl : wrote = false := hkept
    rw [KeyCall.run]
    cases hdone : (t.rebindE2eeKeys ok name b).2 with
    | true => exact fun h => by cases h
    | false =>
      rw [rebindE2eeKeys_eq_false hdone, decide_eq_false (not_not.2 rfl)]
      rfl
  | notCurrent =>
    obtain rfl : wrote = false := hkept
    rw [KeyCall.run, decide_eq_false (not_not.2 rfl)]
    exact kept_of_refuse
  | publish b =>
    obtain ⟨rfl, hbundle⟩ : wrote = false ∧ req.bundle = some b := hkept
    rw [KeyCall.run]
    dsimp only
    split
    · rename_i hzero
      rw [publishE2eeKeys_eq_zero hzero, decide_eq_false (not_not.2 rfl)]
      exact kept_of_refuse
    · refine kept_storeBackup fun _ => ?_
      rw [hbundle]
      exact Option.some_ne_none b
  | current =>
    obtain rfl : wrote = false := hkept
    rw [KeyCall.run]
    dsimp only
    rw [decide_eq_false (not_not.2 rfl)]
    split
    · exact kept_of_refuse
    · exact kept_storeBackup fun h => by cases h
  | backup keyId =>
    rw [KeyCall.run]
    cases ok with
    | true => exact fun h => by cases h
    | false =>
      -- It fails: its request has published nothing either.
      have hwrote : wrote = false := by
        by_contra hwrote
        exact hkept (Bool.not_eq_false _ ▸ hwrote) (hcareful keyId rfl rfl)
      rw [hwrote]
      intro _
      exact decide_eq_false (not_not.2 rfl)

theorem newest_perform (h : st.Newest)
    (hcareful : ∀ keyId, call = .backup keyId → ok = true → ∀ b, st.tables.backup = some b →
      b.keyId ≤ keyId) : (st.perform i r call ok now).Newest := by
  have hsame : ∀ t : E2eeTables, t.backup = st.tables.backup →
      (∀ b, t.backup = some b → b.keyId ∈ st.backedUp) ∧
      ∀ keyId ∈ st.backedUp, ∃ b, t.backup = some b ∧ keyId ≤ b.keyId := by
    intro t ht
    rw [ht]
    exact ⟨h.stored, h.newest⟩
  cases call with
  | rebind b =>
    obtain ⟨hstored, hnewest⟩ := hsame _ backup_rebindE2eeKeys
    exact ⟨hstored, hnewest⟩
  | notCurrent => exact ⟨h.stored, h.newest⟩
  | publish b =>
    obtain ⟨hstored, hnewest⟩ := hsame _ backup_publishE2eeKeys
    exact ⟨hstored, hnewest⟩
  | current => exact ⟨h.stored, h.newest⟩
  | backup keyId =>
    cases ok with
    | false => exact ⟨h.stored, h.newest⟩
    | true =>
      refine ⟨fun b hb => ?_, fun k hk => ⟨_, rfl, ?_⟩⟩
      · cases hb
        exact .head _
      · -- The newest before was the stored one, and it is not newer than this.
        rcases List.mem_cons.1 hk with rfl | hk
        · exact Nat.le_refl _
        · obtain ⟨b, hb, hle⟩ := h.newest k hk
          exact Nat.le_trans hle (hcareful keyId rfl rfl b hb)

/-- Requests are in line with what they wrote, and the backup is the newest. -/
structure Sound (st : KeyRun) : Prop where
  kept : ∀ i r, st.requests i = some r → r.Kept
  newest : st.Newest

theorem Sound.step (h : st.Sound) {e : KeyEvent} (hcareful : st.Careful e) :
    (st.step e).Sound := by
  cases e with
  | request i req name =>
    rw [KeyRun.step, receive]
    split
    · exact h
    · refine ⟨fun j r hr => ?_, h.newest.stored, h.newest.newest⟩
      by_cases hj : j = i
      · subst hj
        cases (Function.update_self _ _ _).symm.trans hr
        exact kept_receive
      · exact h.kept j r ((Function.update_of_ne hj _ _).symm.trans hr)
  | call i ok now =>
    rw [KeyRun.step]
    cases hr : st.requests i with
    | none => exact h
    | some r =>
      obtain ⟨req, name, stage, wrote⟩ := r
      cases stage with
      | inr res => exact h
      | inl call =>
        have hcall : ∀ keyId, call = .backup keyId → (ok = false → req.bundle = none) ∧
            (ok = true → ∀ b, st.tables.backup = some b → b.keyId ≤ keyId) := by
          rintro keyId rfl
          exact hcareful _ keyId hr rfl
        refine ⟨fun j r' hr' => ?_, newest_perform h.newest fun keyId hk => (hcall keyId hk).2⟩
        by_cases hj : j = i
        · subst hj
          cases (Function.update_self _ _ _).symm.trans hr'
          exact kept_run (h.kept _ _ hr) fun keyId hk => (hcall keyId hk).1
        · exact h.kept j r' ((Function.update_of_ne hj _ _).symm.trans hr')

/-- The keys of a device. -/
def someBundle : E2eeKeyBundle where
  dhPub := List.replicate e2eePubLen 1
  signPub := List.replicate e2eePubLen 2
  signature := List.replicate e2eeSigLen 3

/-- A bundle with its backup, stored, and then a backup alone. -/
def publishThenBackUp : List KeyEvent :=
  [.request 0 { bundle := some someBundle, backup := [1] } "a", .call 0 true 0, .call 0 true 0,
    .request 1 { backup := [2] } "a", .call 1 true 0, .call 1 true 0]

def backupFails : List KeyEvent :=
  [.request 0 { bundle := some someBundle, backup := [1] } "a", .call 0 true 0, .call 0 false 0]

/-- A backup reads the generation, another device publishes the next with its backup, and the first
    goes on. -/
def olderComesLast : List KeyEvent :=
  [.request 0 { bundle := some someBundle, backup := [1] } "a", .call 0 true 0, .call 0 true 0,
    .request 1 { backup := [2] } "a", .call 1 true 0,
    .request 2 { bundle := some someBundle, backup := [3] } "a", .call 2 true 0, .call 2 true 0,
    .call 1 true 0]

/-- The events of a run, one after the other. -/
def runKeys (events : List KeyEvent) : KeyRun := events.foldl KeyRun.step {}

def allCareful (st : KeyRun) : List KeyEvent → Bool
  | [] => true
  | e :: events =>
    (match e with
      | .request _ _ _ => true
      | .call i ok _ => (st.requests i).all fun r =>
        match r.stage with
        | .inl (.backup keyId) => if ok then st.tables.backup.all (·.keyId ≤ keyId)
          else r.req.bundle.isNone
        | _ => true) && allCareful (st.step e) events

theorem careful_of_allCareful {e : KeyEvent} {events : List KeyEvent}
    (h : allCareful st (e :: events) = true) : st.Careful e := by
  cases e with
  | request i req name => exact trivial
  | call i ok now =>
    intro r keyId hr hstage
    have hevent := (Bool.and_eq_true_iff.1 h).1
    simp only [hr, Option.all_some, hstage] at hevent
    refine ⟨fun hok => ?_, fun hok b hb => ?_⟩
    · simpa [hok] using hevent
    · simpa [hok, hb] using hevent

theorem reachable_of_allCareful {events : List KeyEvent}
    (hst : (keySystem.given KeyRun.Careful).Reachable st) (h : allCareful st events = true) :
    (keySystem.given KeyRun.Careful).Reachable (events.foldl KeyRun.step st) := by
  induction events generalizing st with
  | nil => exact hst
  | cons e events ih =>
    exact ih (.step e hst ⟨rfl, careful_of_allCareful h⟩) (Bool.and_eq_true_iff.1 h).2

theorem reachable_runKeys (events : List KeyEvent) : keySystem.Reachable (runKeys events) := by
  have hfold : ∀ st, keySystem.Reachable st →
      keySystem.Reachable (events.foldl KeyRun.step st) := by
    induction events with
    | nil => exact fun st hst => hst
    | cons e events ih => exact fun st hst => ih _ (.step e hst rfl)
  exact hfold {} (.init ⟨fun _ => rfl, rfl⟩)

end KeyRun

end Decibell.Central
