import Decibell.Central.Directory
import Decibell.Lib.Run
import Mathlib.Data.List.Nodup

/-!
# The directory is consistent

The maps of the directory say the same thing from several sides (`Consistent`): a connection names
the account it is signed in as, and the account lists its connections, at most `maxDevices`, each of
another device (`Seated`); a connection lists whom it watches, and each account has its watchers.
-/

namespace Decibell.Central

open Function Lib List SessionManager

/-! ## Seats -/

/-- A seated connection's device, and whether it is idle. -/
abbrev Seats := Nat → Option (String × Bool)

/-- A list holds the connections that have a seat. -/
structure Seated (seating : Seats) (ss : List Nat) : Prop where
  nodup : ss.Nodup
  few : ss.length ≤ maxDevices
  mem : ∀ s, s ∈ ss ↔ ∃ seat, seating s = some seat
  devices : ∀ s s' device i i', seating s = some (device, i) → seating s' = some (device, i') → s = s'

def Seats.Idle (seating : Seats) : Prop := ∀ s device i, seating s = some (device, i) → i = true

variable {seating : Seats} {ss : List Nat} {s : Nat}

theorem length_removeFrom_lt (h : s ∈ ss) : (removeFrom ss s).length < ss.length := by
  refine Nat.lt_of_le_of_ne (length_filter_le _ _) fun heq => ?_
  have hmem : s ∈ removeFrom ss s := by
    rw [removeFrom, filter_sublist.eq_of_length heq]
    exact h
  exact (mem_removeFrom.1 hmem).2 rfl

theorem Seated.empty (h : ∀ s, seating s = none) : Seated seating [] where
  nodup := nodup_nil
  few := Nat.zero_le _
  mem s := by simp [h s]
  devices s _ _ _ _ hs _ := by simp [h s] at hs

theorem Seated.remove (h : Seated seating ss) : Seated (update seating s none) (removeFrom ss s) where
  nodup := h.nodup.filter _
  few := Nat.le_trans (length_filter_le _ _) h.few
  mem s' := by
    rw [mem_removeFrom, h.mem, update_apply]
    split
    · simp_all
    · simp_all
  devices s' s'' device i i' hs' hs'' := by
    rw [update_apply] at hs' hs''
    split at hs'
    · cases hs'
    · split at hs''
      · cases hs''
      · exact h.devices s' s'' device i i' hs' hs''

theorem Seated.add {device : String} {i : Bool} (h : Seated seating ss) (hs : seating s = none)
    (hroom : ss.length < maxDevices) (hdevice : ∀ s' i', seating s' ≠ some (device, i')) :
    Seated (update seating s (some (device, i))) (ss ++ [s]) where
  nodup := by
    refine nodup_append.2 ⟨h.nodup, nodup_singleton s, ?_⟩
    rintro s' hs' _ hmem rfl
    obtain ⟨seat, hseat⟩ := (h.mem s').1 hs'
    rw [mem_singleton.1 hmem, hs] at hseat
    cases hseat
  few := by
    rw [length_append, length_singleton]
    exact hroom
  mem s' := by
    rw [mem_append, mem_singleton, h.mem, update_apply]
    split
    · simp_all
    · simp_all
  devices s' s'' device' j j' hs' hs'' := by
    rw [update_apply] at hs' hs''
    split at hs'
    · split at hs''
      · simp_all
      · cases hs'
        exact absurd hs'' (hdevice s'' j')
    · split at hs''
      · cases hs''
        exact absurd hs' (hdevice s' j)
      · exact h.devices s' s'' device' j j' hs' hs''

theorem Seated.setIdle {device : String} {i j : Bool} (h : Seated seating ss)
    (hs : seating s = some (device, i)) : Seated (update seating s (some (device, j))) ss where
  nodup := h.nodup
  few := h.few
  mem s' := by
    rw [h.mem, update_apply]
    split
    · rename_i heq
      simp [heq, hs]
    · rfl
  devices s' s'' device' k k' hs' hs'' := by
    have hback : ∀ s' k, update seating s (some (device, j)) s' = some (device', k) →
        ∃ k, seating s' = some (device', k) := by
      intro s' k hs'
      rw [update_apply] at hs'
      split at hs'
      · rename_i heq
        cases hs'
        exact ⟨i, by rw [heq, hs]⟩
      · exact ⟨k, hs'⟩
    obtain ⟨_, hs'⟩ := hback s' k hs'
    obtain ⟨_, hs''⟩ := hback s'' k' hs''
    exact h.devices s' s'' device' _ _ hs' hs''

/-- The account of the seated connections is there while it has any, and idle when all are. -/
def AccountOk (seating : Seats) : Option Account → Prop
  | none => ∀ s, seating s = none
  | some a => a.sessions ≠ [] ∧ Seated seating a.sessions ∧ (a.presence.idle = true ↔ seating.Idle)

theorem AccountOk.seated {a : Account} (h : AccountOk seating (some a)) : Seated seating a.sessions :=
  h.2.1

theorem AccountOk.of_idle {a a' : Account} (h : AccountOk seating (some a))
    (hsessions : a'.sessions = a.sessions) (hidle : a'.presence.idle = a.presence.idle) :
    AccountOk seating (some a') := by
  refine ⟨?_, ?_, ?_⟩
  · rw [hsessions]
    exact h.1
  · rw [hsessions]
    exact h.2.1
  · rw [hidle]
    exact h.2.2

/-! ## The invariant -/

namespace SessionManager

variable {d d' : SessionManager} {now : Clock} {uid : Int} {device : String}

/-- The seat of a connection in an account. -/
def seats (d : SessionManager) (uid : Int) : Seats := fun s =>
  (d.sessions s).bind fun c => if c.uid = uid then some (c.deviceId, c.idle) else none

theorem seats_eq_some {seat : String × Bool} : d.seats uid s = some seat ↔
    ∃ c, d.sessions s = some c ∧ c.uid = uid ∧ seat = (c.deviceId, c.idle) := by
  unfold seats
  cases d.sessions s with
  | none => simp
  | some c => simp [eq_comm]

theorem seats_eq_none_of_uid {c : Connection} (hc : d.sessions s = some c) (h : c.uid ≠ uid) :
    d.seats uid s = none := by
  simp [seats, hc, h]

theorem seats_of_uid {c : Connection} (hc : d.sessions s = some c) :
    d.seats c.uid s = some (c.deviceId, c.idle) := by
  simp [seats, hc]

theorem seats_update {o : Option Connection} (h : d'.sessions = update d.sessions s o) :
    d'.seats uid = update (d.seats uid) s
      (o.bind fun c => if c.uid = uid then some (c.deviceId, c.idle) else none) := by
  funext s'
  unfold seats
  rw [h, update_apply, update_apply]
  split
  · rfl
  · rfl

/-- All agrees, apart from one account. -/
structure ConsistentBut (d : SessionManager) (uid : Int) : Prop where
  uid_nonneg : ∀ s c, d.sessions s = some c → 0 ≤ c.uid
  account_pos : ∀ uid', (d.accounts uid').isSome → 0 < uid'
  account : ∀ uid', uid' ≠ uid → 0 < uid' → AccountOk (d.seats uid') (d.accounts uid')
  watched : ∀ target s, s ∈ d.watchers target ↔
    ∃ c, d.sessions s = some c ∧ target ∈ c.watching

/-- The connections, the watchers and the accounts agree. -/
structure Consistent (d : SessionManager) : Prop where
  uid_nonneg : ∀ s c, d.sessions s = some c → 0 ≤ c.uid
  account_pos : ∀ uid, (d.accounts uid).isSome → 0 < uid
  account : ∀ uid, 0 < uid → AccountOk (d.seats uid) (d.accounts uid)
  watched : ∀ target s, s ∈ d.watchers target ↔
    ∃ c, d.sessions s = some c ∧ target ∈ c.watching

theorem Consistent.but (h : d.Consistent) (uid : Int) : d.ConsistentBut uid :=
  ⟨h.uid_nonneg, h.account_pos, fun uid' _ => h.account uid', h.watched⟩

theorem ConsistentBut.consistent (h : d.ConsistentBut 0) : d.Consistent :=
  ⟨h.uid_nonneg, h.account_pos, fun uid hpos => h.account uid (Int.ne_of_gt hpos) hpos, h.watched⟩

theorem ConsistentBut.congr (h : d.ConsistentBut uid) (hsessions : d'.sessions = d.sessions)
    (haccounts : d'.accounts = d.accounts) (hwatchers : d'.watchers = d.watchers) :
    d'.ConsistentBut uid := by
  obtain ⟨hnonneg, hpos, haccount, hwatched⟩ := h
  have hseats : ∀ uid', d'.seats uid' = d.seats uid' := by
    intro uid'
    unfold seats
    rw [hsessions]
  refine ⟨?_, ?_, ?_, ?_⟩
  · rw [hsessions]
    exact hnonneg
  · rw [haccounts]
    exact hpos
  · intro uid'
    rw [hseats, haccounts]
    exact haccount uid'
  · rw [hwatchers, hsessions]
    exact hwatched

theorem Consistent.congr (h : d.Consistent) (hsessions : d'.sessions = d.sessions)
    (haccounts : d'.accounts = d.accounts) (hwatchers : d'.watchers = d.watchers) :
    d'.Consistent :=
  ((h.but 0).congr hsessions haccounts hwatchers).consistent

theorem ConsistentBut.setAccount {o : Option Account} (h : d.ConsistentBut uid) (hpos : 0 < uid)
    (hok : AccountOk (d.seats uid) o) : (d.setAccount uid o).Consistent where
  uid_nonneg := h.uid_nonneg
  account_pos uid' hsome := by
    by_cases heq : uid' = uid
    · exact heq ▸ hpos
    · refine h.account_pos uid' ?_
      have hother : (d.setAccount uid o).accounts uid' = d.accounts uid' := update_of_ne heq _ _
      rwa [hother] at hsome
  account uid' hpos' := by
    change AccountOk (d.seats uid') (update d.accounts uid o uid')
    by_cases heq : uid' = uid
    · rw [heq, update_self]
      exact hok
    · rw [update_of_ne heq]
      exact h.account uid' heq hpos'
  watched := h.watched

section Connections

variable {conn : Connection}

theorem setConnection_sessions {f : Connection → Connection} (hs : d.sessions s = some conn) :
    (d.setConnection s f).sessions = update d.sessions s (some (f conn)) := by
  change update d.sessions s ((d.sessions s).map f) = _
  rw [hs]
  rfl

theorem ConsistentBut.setConnection {f : Connection → Connection} (h : d.ConsistentBut uid)
    (hs : d.sessions s = some conn) (hwatching : (f conn).watching = conn.watching)
    (hbefore : conn.uid = 0 ∨ conn.uid = uid) (hafter : (f conn).uid = 0 ∨ (f conn).uid = uid)
    (huid : 0 ≤ uid) : (d.setConnection s f).ConsistentBut uid := by
  have hsessions := setConnection_sessions (f := f) hs
  refine ⟨?_, h.account_pos, ?_, ?_⟩
  · intro s' c hc
    rw [hsessions, update_apply] at hc
    split at hc
    · cases hc
      rcases hafter with hafter | hafter
      · exact Int.le_of_eq hafter.symm
      · exact hafter ▸ huid
    · exact h.uid_nonneg s' c hc
  · intro uid' hne hpos
    have hnone : d.seats uid' s = none := by
      refine seats_eq_none_of_uid hs ?_
      rcases hbefore with hbefore | hbefore <;> rw [hbefore] <;> omega
    have hseat : (f conn).uid ≠ uid' := by
      rcases hafter with hafter | hafter <;> rw [hafter] <;> omega
    rw [seats_update hsessions, Option.bind_some, if_neg hseat, ← hnone, update_eq_self]
    exact h.account uid' hne hpos
  · intro target s'
    change s' ∈ d.watchers target ↔ _
    rw [h.watched, hsessions, update_apply]
    split
    · rename_i heq
      rw [heq, hs]
      simp [hwatching]
    · rfl

theorem unwatchAll_sessions (hs : d.sessions s = some conn) : (d.unwatchAll s conn).sessions =
    update d.sessions s (some { conn with watching := [] }) :=
  setConnection_sessions (d := { d with watchers := _ }) hs

theorem ConsistentBut.mem_unwatchAll (h : d.ConsistentBut uid) (hs : d.sessions s = some conn)
    (target : Int) (s' : Nat) : s' ∈ (d.unwatchAll s conn).watchers target ↔
      s' ≠ s ∧ s' ∈ d.watchers target := by
  change s' ∈ (if target ∈ conn.watching then removeFrom (d.watchers target) s
    else d.watchers target) ↔ _
  split
  · rw [mem_removeFrom, and_comm]
  · rename_i hout
    constructor
    · intro hmem
      refine ⟨?_, hmem⟩
      rintro rfl
      obtain ⟨c, hc, hwatch⟩ := (h.watched target s').1 hmem
      cases hs.symm.trans hc
      exact hout hwatch
    · exact fun hmem => hmem.2

theorem ConsistentBut.unwatchAll (h : d.ConsistentBut uid) (hs : d.sessions s = some conn) :
    (d.unwatchAll s conn).ConsistentBut uid := by
  have hsessions := unwatchAll_sessions hs
  refine ⟨?_, h.account_pos, ?_, ?_⟩
  · intro s' c hc
    rw [hsessions, update_apply] at hc
    split at hc
    · cases hc
      exact h.uid_nonneg s conn hs
    · exact h.uid_nonneg s' c hc
  · intro uid' hne hpos
    have hseats : (d.unwatchAll s conn).seats uid' = d.seats uid' := by
      rw [seats_update hsessions, update_eq_self_iff.2]
      simp [seats, hs]
    rw [hseats]
    exact h.account uid' hne hpos
  · intro target s'
    rw [h.mem_unwatchAll hs, h.watched, hsessions, update_apply]
    split
    · simp_all
    · simp_all

/-- A connection that signs out of the account that is left out. -/
def signedOut (d : SessionManager) (now : Clock) (s : Nat) (conn : Connection) : SessionManager :=
  ((d.unwatchAll s conn).callLeave now s conn.deviceId).1.setConnection s
    fun c => { c with uid := 0 }

theorem signedOut_sessions (hs : d.sessions s = some conn) : (d.signedOut now s conn).sessions =
    update d.sessions s (some { conn with uid := 0, watching := [] }) := by
  have hself : (d.unwatchAll s conn).sessions s = some { conn with watching := [] } := by
    rw [unwatchAll_sessions hs, update_self]
  refine (setConnection_sessions (d := ((d.unwatchAll s conn).callLeave now s conn.deviceId).1)
    hself).trans ?_
  change update (d.unwatchAll s conn).sessions s _ = _
  rw [unwatchAll_sessions hs, update_idem]

theorem ConsistentBut.signedOut (h : d.ConsistentBut conn.uid) (hs : d.sessions s = some conn) :
    (d.signedOut now s conn).ConsistentBut conn.uid := by
  have hself : ((d.unwatchAll s conn).callLeave now s conn.deviceId).1.sessions s =
      some { conn with watching := [] } := by
    change (d.unwatchAll s conn).sessions s = _
    rw [unwatchAll_sessions hs, update_self]
  have hleft : ((d.unwatchAll s conn).callLeave now s conn.deviceId).1.ConsistentBut conn.uid :=
    (h.unwatchAll hs).congr rfl rfl rfl
  exact hleft.setConnection hself rfl (.inr rfl) (.inl rfl) (h.uid_nonneg s conn hs)

theorem signedOut_seats (hs : d.sessions s = some conn) (hpos : 0 < uid) :
    (d.signedOut now s conn).seats uid = update (d.seats uid) s none := by
  rw [seats_update (signedOut_sessions hs)]
  simp [Int.ne_of_lt hpos]

theorem Consistent.listed (h : d.Consistent) (hs : d.sessions s = some conn)
    (hpos : 0 < conn.uid) : ∃ a, d.accounts conn.uid = some a ∧ s ∈ a.sessions := by
  have hok := h.account conn.uid hpos
  cases ha : d.accounts conn.uid with
  | none =>
    rw [ha] at hok
    have hnone := hok s
    rw [seats_of_uid hs] at hnone
    cases hnone
  | some a =>
    rw [ha] at hok
    exact ⟨a, rfl, (hok.seated.mem s).2 ⟨_, seats_of_uid hs⟩⟩

theorem Consistent.accountOk {a : Account} (h : d.Consistent) (ha : d.accounts uid = some a) :
    AccountOk (d.seats uid) (some a) := by
  rw [← ha]
  exact h.account uid (h.account_pos uid (by rw [ha]; rfl))

theorem allIdle_iff (h : Seated (d.seats uid) ss) (hne : ss ≠ []) :
    d.allIdle ss = true ↔ (d.seats uid).Idle := by
  have hall : d.allIdle ss = true ↔ ∀ s ∈ ss, (d.sessions s).any (·.idle) = true := by
    simp [allIdle, hne]
  rw [hall]
  constructor
  · intro hidle s device i hs
    have hmem : s ∈ ss := (h.mem s).2 ⟨_, hs⟩
    obtain ⟨c, hc, _, hseat⟩ := seats_eq_some.1 hs
    cases hseat
    simpa [hc] using hidle s hmem
  · intro hidle s hs
    obtain ⟨seat, hseat⟩ := (h.mem s).1 hs
    obtain ⟨c, hc, _, rfl⟩ := seats_eq_some.1 hseat
    simpa [hc] using hidle s c.deviceId c.idle hseat

theorem accountOk_recomputeIdle {a : Account} (hne : a.sessions ≠ [])
    (h : Seated (d.seats uid) a.sessions) : AccountOk (d.seats uid) (some (d.recomputeIdle a)) :=
  ⟨hne, h, allIdle_iff h hne⟩

/-! ## What each operation keeps -/

theorem signOut_connections : (d.signOut now s conn).1.sessions = (d.signedOut now s conn).sessions ∧
    (d.signOut now s conn).1.watchers = (d.signedOut now s conn).watchers := by
  unfold signOut
  dsimp only
  split
  · exact ⟨rfl, rfl⟩
  split
  · exact ⟨rfl, rfl⟩
  split
  · exact ⟨rfl, rfl⟩
  split
  · exact ⟨rfl, rfl⟩
  · exact ⟨rfl, rfl⟩

theorem Consistent.signOut (h : d.Consistent) (hs : d.sessions s = some conn) :
    (d.signOut now s conn).1.Consistent := by
  have hbut : (d.signedOut now s conn).ConsistentBut conn.uid := (h.but conn.uid).signedOut hs
  unfold SessionManager.signOut
  dsimp only
  split
  · -- It was not signed in.
    rename_i hnonpos
    have hzero : conn.uid = 0 := Int.le_antisymm hnonpos (h.uid_nonneg s conn hs)
    rw [hzero] at hbut
    exact hbut.consistent
  rename_i hpos
  rw [Int.not_le] at hpos
  obtain ⟨a, ha, hmem⟩ := h.listed hs hpos
  have hseated : Seated ((d.signedOut now s conn).seats conn.uid) (removeFrom a.sessions s) := by
    rw [signedOut_seats hs hpos]
    exact (h.accountOk ha).seated.remove
  have hacc : (d.signedOut now s conn).accounts conn.uid = some a := ha
  have hlen := Nat.ne_of_lt (length_removeFrom_lt hmem)
  split
  · rename_i hnone
    cases hnone.symm.trans hacc
  rename_i a' ha'
  cases ha'.symm.trans hacc
  rw [if_neg hlen]
  split
  · rename_i hempty
    refine hbut.setAccount hpos fun s' => ?_
    cases hs' : (d.signedOut now s conn).seats conn.uid s' with
    | none => rfl
    | some seat =>
      rw [hempty] at hseated
      exact absurd ((hseated.mem s').2 ⟨seat, hs'⟩) not_mem_nil
  · rename_i hne
    exact hbut.setAccount hpos (accountOk_recomputeIdle hne hseated)

theorem signOut_self (hs : d.sessions s = some conn) : (d.signOut now s conn).1.sessions s =
    some { conn with uid := 0, watching := [] } := by
  rw [signOut_connections.1, signedOut_sessions hs, update_self]

theorem Consistent.forget (h : d.Consistent) (hs : d.sessions s = some conn) (huid : conn.uid = 0)
    (hwatching : conn.watching = []) : (d.forget s).Consistent := by
  have hsessions : (d.forget s).sessions = update d.sessions s none := rfl
  refine ⟨?_, h.account_pos, ?_, ?_⟩
  · intro s' c hc
    rw [hsessions, update_apply] at hc
    split at hc
    · cases hc
    · exact h.uid_nonneg s' c hc
  · intro uid hpos
    have hnone : d.seats uid s = none := seats_eq_none_of_uid hs (by omega)
    rw [seats_update hsessions, Option.bind_none, ← hnone, update_eq_self]
    exact h.account uid hpos
  · intro target s'
    change s' ∈ d.watchers target ↔ _
    rw [h.watched, hsessions, update_apply]
    split
    · simp_all
    · rfl

theorem sessions_forget_signOut (hs : d.sessions s = some conn) :
    ((d.signOut now s conn).1.forget s).sessions = update d.sessions s none := by
  change update (d.signOut now s conn).1.sessions s none = _
  rw [signOut_connections.1, signedOut_sessions hs, update_idem]

theorem leave_sessions : (d.leave now s).1.sessions = update d.sessions s none := by
  unfold leave
  split
  · next hs => rw [← hs, update_eq_self]
  · next conn hs => exact sessions_forget_signOut hs

theorem retire_sessions {reason : CloseReason} : (d.retire now s reason).1.sessions = update d.sessions s none := by
  unfold retire
  split
  · next hs => rw [← hs, update_eq_self]
  · next conn hs => exact sessions_forget_signOut hs

theorem Consistent.leave (h : d.Consistent) : (d.leave now s).1.Consistent := by
  unfold SessionManager.leave
  split
  · exact h
  · rename_i conn hs
    exact (h.signOut hs).forget (signOut_self hs) rfl rfl

theorem Consistent.retire {reason : CloseReason} (h : d.Consistent) :
    (d.retire now s reason).1.Consistent := by
  unfold SessionManager.retire
  split
  · exact h
  · rename_i conn hs
    exact (h.signOut hs).forget (signOut_self hs) rfl rfl

theorem Consistent.retireAll {reason : CloseReason} {closing : List Nat} (h : d.Consistent) :
    (d.retireAll now reason closing).1.Consistent := by
  unfold SessionManager.retireAll
  refine List.foldlRecOn (motive := fun r : SessionManager × Fanout => r.1.Consistent) closing _
    h ?_
  intro r hr s _
  exact hr.retire

theorem Consistent.join (h : d.Consistent) : (d.join s).Consistent := by
  unfold SessionManager.join
  split
  · rename_i hs
    have hsessions : ({ d with sessions := update d.sessions s (some {}) } : SessionManager).sessions =
      update d.sessions s (some {}) := rfl
    refine ⟨?_, h.account_pos, ?_, ?_⟩
    · intro s' c hc
      rw [hsessions, update_apply] at hc
      split at hc
      · cases hc
        exact Int.le_refl 0
      · exact h.uid_nonneg s' c hc
    · intro uid hpos
      have hnone : d.seats uid s = none := by simp [seats, hs]
      have hseat : (0 : Int) ≠ uid := Int.ne_of_lt hpos
      rw [seats_update hsessions, Option.bind_some, if_neg hseat, ← hnone, update_eq_self]
      exact h.account uid hpos
    · intro target s'
      change s' ∈ d.watchers target ↔ _
      rw [h.watched, hsessions, update_apply]
      split
      · rename_i heq
        rw [heq, hs]
        simp
      · rfl
  · exact h

/-! ### Signing in -/

theorem bound_seats {uid : Int} {device : String} (hs : d.sessions s = some conn) :
    (d.setConnection s fun c => { c with uid, deviceId := device, idle := false }).seats uid =
      update (d.seats uid) s (some (device, false)) := by
  rw [seats_update (setConnection_sessions hs), Option.bind_some, if_pos rfl]

theorem ConsistentBut.bindFresh {presence : Presence} {reply : Packet} {out : Fanout}
    (h : d.ConsistentBut uid) (hpos : 0 < uid) (hs : d.sessions s = some conn) (huid : conn.uid = 0)
    (hseated : Seated (d.seats uid) []) :
    (d.bindFresh s uid device presence reply out).manager.Consistent := by
  have hnone : ∀ s', d.seats uid s' = none := by
    intro s'
    cases hs' : d.seats uid s' with
    | none => rfl
    | some seat => exact absurd ((hseated.mem s').2 ⟨seat, hs'⟩) not_mem_nil
  refine (h.setConnection (f := fun c => { c with uid, deviceId := device, idle := false }) hs rfl
    (.inl huid) (.inr rfl) (Int.le_of_lt hpos)).setAccount hpos ⟨cons_ne_nil _ _, ?_, ?_⟩
  · rw [bound_seats hs]
    exact hseated.add (hnone s) (by decide) (fun s' i' => by rw [hnone s']; exact nofun)
  · -- The new connection is not idle.
    rw [bound_seats hs]
    refine ⟨fun hidle => absurd hidle Bool.false_ne_true, fun hidle => ?_⟩
    exact hidle s device false (update_self ..)

theorem ConsistentBut.bindBeside {presence : Presence} {a : Account} {reply : Packet}
    {rebuild : Presence → Packet} {replaced : Option Nat} {out : Fanout} (h : d.ConsistentBut uid)
    (hpos : 0 < uid) (hs : d.sessions s = some conn) (huid : conn.uid = 0)
    (hseated : Seated (d.seats uid) a.sessions) (hroom : a.sessions.length < maxDevices)
    (hdevice : ∀ s' i', d.seats uid s' ≠ some (device, i')) :
    (d.bindBeside now s uid device presence a reply rebuild replaced out).manager.Consistent := by
  have hnone : d.seats uid s = none := seats_eq_none_of_uid hs (by omega)
  refine (h.setConnection (f := fun c => { c with uid, deviceId := device, idle := false }) hs rfl
    (.inl huid) (.inr rfl) (Int.le_of_lt hpos)).setAccount hpos
      (accountOk_recomputeIdle (by simp) ?_)
  rw [bound_seats hs]
  exact hseated.add hnone hroom hdevice

theorem strip_of_some {old : Connection} (hold : d.sessions s = some old) :
    d.strip s = (d.unwatchAll s old).setConnection s fun c => { c with uid := 0 } := by
  unfold strip
  rw [hold]

theorem strip_sessions {old : Connection} (hold : d.sessions s = some old) :
    (d.strip s).sessions = update d.sessions s (some { old with uid := 0, watching := [] }) := by
  have hself : (d.unwatchAll s old).sessions s = some { old with watching := [] } := by
    rw [unwatchAll_sessions hold, update_self]
  rw [strip_of_some hold, setConnection_sessions hself, unwatchAll_sessions hold, update_idem]

theorem ConsistentBut.strip {old : Connection} (h : d.ConsistentBut uid) (hpos : 0 < uid)
    (hold : d.sessions s = some old) (huid : old.uid = uid) : (d.strip s).ConsistentBut uid := by
  have hself : (d.unwatchAll s old).sessions s = some { old with watching := [] } := by
    rw [unwatchAll_sessions hold, update_self]
  rw [strip_of_some hold]
  exact (h.unwatchAll hold).setConnection hself rfl (.inr huid) (.inl rfl) (Int.le_of_lt hpos)

theorem deviceSession_eq_some {except : Option Nat} {old : Nat}
    (h : d.deviceSession uid device except = some old) : device ≠ "" ∧ some old ≠ except ∧
      (∃ a, d.accounts uid = some a ∧ old ∈ a.sessions) ∧
        ∃ c, d.sessions old = some c ∧ c.deviceId = device := by
  unfold deviceSession at h
  split at h
  · cases h
  · rename_i hdevice
    split at h
    · cases h
    · rename_i a ha
      have hfound := find?_some h
      have hmem := mem_of_find?_eq_some h
      rw [decide_eq_true_eq] at hfound
      obtain ⟨hne, hany⟩ := hfound
      refine ⟨hdevice, hne, ⟨a, ha, hmem⟩, ?_⟩
      cases hc : d.sessions old with
      | none => rw [hc] at hany; cases hany
      | some c =>
        rw [hc] at hany
        exact ⟨c, rfl, of_decide_eq_true hany⟩

theorem deviceSession_eq_none {a : Account} (hdevice : device ≠ "") (ha : d.accounts uid = some a)
    (h : d.deviceSession uid device none = none) {old : Nat} (hold : old ∈ a.sessions)
    {c : Connection} (hc : d.sessions old = some c) : c.deviceId ≠ device := by
  unfold deviceSession at h
  rw [if_neg hdevice, ha] at h
  have hnot := find?_eq_none.1 h old hold
  rintro heq
  simp [hc, heq] at hnot

theorem Consistent.bind {presence : Presence} {reply : Packet} {rebuild : Presence → Packet}
    (h : d.Consistent) (hpos : 0 < uid) (hdevice : device ≠ "") :
    (d.bind now s uid device presence reply rebuild).manager.Consistent := by
  unfold SessionManager.bind
  split
  · exact h
  rename_i conn hs
  -- Whoever was signed in on the connection signs out first.
  obtain ⟨d₁, out, hd₁⟩ : ∃ d₁ out, (if 0 < conn.uid then d.signOut now s conn else (d, [])) = (d₁, out) :=
    ⟨_, _, rfl⟩
  have hready : d₁.Consistent ∧ ∃ c, d₁.sessions s = some c ∧ c.uid = 0 := by
    by_cases hin : 0 < conn.uid
    · rw [if_pos hin] at hd₁
      have hd : (d.signOut now s conn).1 = d₁ := congrArg Prod.fst hd₁
      rw [← hd]
      exact ⟨h.signOut hs, _, signOut_self hs, rfl⟩
    · rw [if_neg hin] at hd₁
      have hd : d = d₁ := congrArg Prod.fst hd₁
      rw [← hd]
      exact ⟨h, conn, hs, Int.le_antisymm (Int.not_lt.1 hin) (h.uid_nonneg s conn hs)⟩
  rw [hd₁]
  dsimp only
  obtain ⟨h₁, c, hc, hcuid⟩ := hready
  cases ha : d₁.accounts uid with
  | none =>
    have hnone := h₁.account uid hpos
    rw [ha] at hnone
    exact (h₁.but uid).bindFresh hpos hc hcuid (Seated.empty hnone)
  | some a =>
    have hok := h₁.accountOk ha
    dsimp only
    cases hold : d₁.deviceSession uid device none with
    | some old =>
      -- The same device signs in again.
      obtain ⟨_, _, ⟨a', ha', hmem⟩, oldc, holdc, hdev⟩ := deviceSession_eq_some hold
      cases ha.symm.trans ha'
      obtain ⟨seat, hseat⟩ := (hok.seated.mem old).1 hmem
      obtain ⟨c', hc', huid', rfl⟩ := seats_eq_some.1 hseat
      cases holdc.symm.trans hc'
      have hne : s ≠ old := by
        rintro rfl
        cases hc.symm.trans holdc
        omega
      have hseats : (d₁.strip old).seats uid = update (d₁.seats uid) old none := by
        rw [seats_update (strip_sessions holdc)]
        simp [Int.ne_of_lt hpos]
      have hs₂ : (d₁.strip old).sessions s = some c := by
        rw [strip_sessions holdc, update_of_ne hne]
        exact hc
      refine ((h₁.but uid).strip hpos holdc huid').bindBeside hpos hs₂ hcuid ?_ ?_ ?_
      · rw [hseats]
        exact hok.seated.remove
      · exact Nat.lt_of_lt_of_le (length_removeFrom_lt hmem) hok.seated.few
      · intro s' i'
        rw [hseats, update_apply]
        split
        · exact nofun
        · rename_i hne'
          intro hs'
          exact hne' (hok.seated.devices s' old device i' oldc.idle hs' (by rw [hseat, hdev]))
    | none =>
      dsimp only
      split
      · exact h₁
      · rename_i hroom
        refine (h₁.but uid).bindBeside hpos hc hcuid hok.seated (Nat.not_le.1 hroom) ?_
        intro s' i' hs'
        obtain ⟨c', hc', huid', hseat⟩ := seats_eq_some.1 hs'
        have hmem : s' ∈ a.sessions := (hok.seated.mem s').2 ⟨_, hs'⟩
        cases hseat
        exact deviceSession_eq_none hdevice ha hold hmem hc' rfl

/-! ### What is shown and watched -/

theorem Consistent.setPresence {a : Account} {p : Presence} (h : d.Consistent)
    (ha : d.accounts uid = some a) (hidle : p.idle = a.presence.idle) :
    (d.setAccount uid (some { a with presence := p })).Consistent :=
  (h.but uid).setAccount (h.account_pos uid (by rw [ha]; rfl))
    ((h.accountOk ha).of_idle rfl hidle)

theorem Consistent.updatePresence {change : Presence → Presence} (h : d.Consistent)
    (hidle : ∀ p, (change p).idle = p.idle) : (d.updatePresence now uid change).1.Consistent := by
  unfold SessionManager.updatePresence
  split
  · exact h
  · rename_i a ha
    exact h.setPresence ha (hidle a.presence)

theorem Consistent.expireStatusMessage (h : d.Consistent) :
    (d.expireStatusMessage now uid).1.Consistent := by
  unfold SessionManager.expireStatusMessage
  split
  · exact h
  split
  · exact h
  · exact h.updatePresence fun _ => rfl

theorem Consistent.pushUserRenamed {username : String} {sender : Nat} (h : d.Consistent) :
    (d.pushUserRenamed uid username sender).1.Consistent := by
  unfold SessionManager.pushUserRenamed
  dsimp only
  split
  · exact h.congr rfl rfl rfl
  · rename_i a ha
    exact (h.setPresence (p := { a.presence with username }) ha rfl).congr rfl rfl rfl

theorem Consistent.pushAvatarChanged {version : String} {sender : Nat} (h : d.Consistent) :
    (d.pushAvatarChanged uid version sender).1.Consistent := by
  unfold SessionManager.pushAvatarChanged
  dsimp only
  split
  · exact h
  · rename_i a ha
    exact h.setPresence (p := { a.presence with avatarVersion := version }) ha rfl

theorem Consistent.setIdle {idle : Bool} (h : d.Consistent) :
    (d.setIdle now s idle).1.Consistent := by
  unfold SessionManager.setIdle
  split
  · exact h
  rename_i conn hs
  split
  · exact h
  rename_i hchange
  have hpos : 0 < conn.uid := Int.not_le.1 fun hle => hchange (.inl hle)
  obtain ⟨a, ha, hmem⟩ := h.listed hs hpos
  have hbut := (h.but conn.uid).setConnection (f := fun c => { c with idle }) hs rfl (.inr rfl)
    (.inr rfl) (Int.le_of_lt hpos)
  have hseated : Seated ((d.setConnection s fun c => { c with idle }).seats conn.uid) a.sessions := by
    rw [seats_update (setConnection_sessions hs), Option.bind_some, if_pos rfl]
    exact (h.accountOk ha).seated.setIdle (seats_of_uid hs)
  dsimp only
  split
  · rename_i hnone
    cases hnone.symm.trans ha
  · rename_i a' ha'
    cases ha'.symm.trans ha
    exact hbut.setAccount hpos (accountOk_recomputeIdle (ne_nil_of_mem hmem) hseated)

theorem Consistent.watch {uids : List Int} (h : d.Consistent) :
    (d.watch s uid uids).1.Consistent := by
  unfold SessionManager.watch
  split
  · exact h
  rename_i conn hs
  split
  · exact h
  dsimp only
  have hsessions := setConnection_sessions (f := fun c => { c with watching := watchSet uids })
    (d := { d with watchers := fun target =>
          if target ∈ watchSet uids then
            if target ∈ conn.watching then d.watchers target else d.watchers target ++ [s]
          else if target ∈ conn.watching then removeFrom (d.watchers target) s
          else d.watchers target }) hs
  refine ⟨?_, h.account_pos, ?_, ?_⟩
  · intro s' c hc
    rw [hsessions, update_apply] at hc
    split at hc
    · cases hc
      exact h.uid_nonneg s conn hs
    · exact h.uid_nonneg s' c hc
  · intro uid' hpos
    rw [seats_update (d := d) hsessions, update_eq_self_iff.2]
    · exact h.account uid' hpos
    · simp [seats, hs]
  · intro target s'
    have hself : s ∈ d.watchers target ↔ target ∈ conn.watching := by
      rw [h.watched, hs]
      simp
    have hother : s' ≠ s → (s' ∈ d.watchers target ↔
        ∃ c, d.sessions s' = some c ∧ target ∈ c.watching) := fun _ => h.watched target s'
    change s' ∈ (if target ∈ watchSet uids then
            if target ∈ conn.watching then d.watchers target else d.watchers target ++ [s]
          else if target ∈ conn.watching then removeFrom (d.watchers target) s
          else d.watchers target) ↔ _
    rw [hsessions]
    change _ ↔ ∃ c, update d.sessions s _ s' = some c ∧ target ∈ c.watching
    by_cases heq : s' = s
    · subst heq
      rw [update_self]
      split
      · split <;> simp_all
      · split <;> simp_all
    · rw [update_of_ne heq, ← hother heq]
      split
      · split <;> simp_all
      · split <;> simp_all

end Connections

end SessionManager

/-! ## Runs -/

/-- The account and the device that a sign-in has proven. -/
structure LoginResult where
  uid : Int
  uid_pos : 0 < uid
  username : String
  deviceId : String
  device_named : deviceId ≠ ""

/-- What happens to the directory. Closing an account's other connections is a `retire` for each. -/
inductive DirectoryAct
  | join (s : Nat)
  | bind (s : Nat) (login : LoginResult) (presence : Presence)
  | leave (s : Nat)
  | retire (s : Nat) (reason : CloseReason)
  | closeOtherSessions (uid : Int) (keep : Option Nat) (reason : CloseReason)
  | closeDeviceSessions (uid : Int) (devices : List String) (keep : Option Nat)
    (reason : CloseReason)
  | watch (s : Nat) (uid : Int) (uids : List Int)
  | setIdle (s : Nat) (idle : Bool)
  | updatePresence (uid : Int) (change : PresenceChange)
  | expireStatusMessage (uid : Int)
  | pushUserRenamed (uid : Int) (username : String) (sender : Nat)
  | pushAvatarChanged (uid : Int) (version : String) (sender : Nat)

namespace SessionManager

variable {d : SessionManager}

/-- A sign-in is answered from the presence read for it, or the account's own. -/
def bindLogin (d : SessionManager) (now : Clock) (s : Nat) (login : LoginResult)
    (presence : Presence) : Bound :=
  let frame := loginFrame now.unix login.uid login.username
  d.bind now s login.uid login.deviceId presence (frame presence) frame

def perform (d : SessionManager) (now : Clock) : DirectoryAct → SessionManager
  | .join s => d.join s
  | .bind s login presence => (d.bindLogin now s login presence).manager
  | .leave s => (d.leave now s).1
  | .retire s reason => (d.retire now s reason).1
  | .closeOtherSessions uid keep reason => (d.closeOtherSessions now uid keep reason).1
  | .closeDeviceSessions uid devices keep reason =>
    (d.closeDeviceSessions now uid devices keep reason).1
  | .watch s uid uids => (d.watch s uid uids).1
  | .setIdle s idle => (d.setIdle now s idle).1
  | .updatePresence uid change => (d.updatePresence now uid change.apply).1
  | .expireStatusMessage uid => (d.expireStatusMessage now uid).1
  | .pushUserRenamed uid username sender => (d.pushUserRenamed uid username sender).1
  | .pushAvatarChanged uid version sender => (d.pushAvatarChanged uid version sender).1

theorem Consistent.perform {now : Clock} (h : d.Consistent) (a : DirectoryAct) :
    (d.perform now a).Consistent := by
  cases a with
  | join s => exact h.join
  | bind s login presence => exact h.bind login.uid_pos login.device_named
  | leave s => exact h.leave
  | retire s reason => exact h.retire
  | closeOtherSessions uid keep reason => exact h.retireAll
  | closeDeviceSessions uid devices keep reason => exact h.retireAll
  | watch s uid uids => exact h.watch
  | setIdle s idle => exact h.setIdle
  | updatePresence uid change => exact h.updatePresence change.idle_apply
  | expireStatusMessage uid => exact h.expireStatusMessage
  | pushUserRenamed uid username sender => exact h.pushUserRenamed
  | pushAvatarChanged uid version sender => exact h.pushAvatarChanged

theorem consistent_empty : ({} : SessionManager).Consistent where
  uid_nonneg _ _ hc := by cases hc
  account_pos _ hsome := by cases hsome
  account _ _ := fun _ => rfl
  watched target s := by simp

end SessionManager

/-- The runs from a server without connections; each step has its time. -/
def directorySystem : System SessionManager (Clock × DirectoryAct) where
  init d := d = {}
  step d a d' := d' = d.perform a.1 a.2

theorem directorySystem_consistent {d : SessionManager} (h : directorySystem.Reachable d) :
    d.Consistent := by
  refine System.reachable_invariant (I := SessionManager.Consistent) ?_ ?_ h
  · rintro d rfl
    exact consistent_empty
  · rintro d a d' hd rfl
    exact hd.perform a.2

/-- In every run an account is there exactly while it has a signed-in connection, which is listed by
    the account it names and no other; an account lists nothing else, at most `maxDevices`, each of
    another device; the watchers are the inverse of what is watched; an account is idle exactly when
    all its connections are. -/
theorem directory_consistent {d : SessionManager} (h : directorySystem.Reachable d) :
    (∀ uid, (d.accounts uid).isSome ↔ 0 < uid ∧ ∃ s c, d.sessions s = some c ∧ c.uid = uid) ∧
      (∀ s c, d.sessions s = some c → 0 < c.uid →
        ∀ uid, (∃ a, d.accounts uid = some a ∧ s ∈ a.sessions) ↔ uid = c.uid) ∧
      (∀ uid a, d.accounts uid = some a →
        (∀ s ∈ a.sessions, ∃ c, d.sessions s = some c ∧ c.uid = uid) ∧
          a.sessions.Nodup ∧ a.sessions.length ≤ 8 ∧
          ∀ s ∈ a.sessions, ∀ s' ∈ a.sessions, ∀ c c', d.sessions s = some c →
            d.sessions s' = some c' → c.deviceId = c'.deviceId → s = s') ∧
      (∀ target s, s ∈ d.watchers target ↔ ∃ c, d.sessions s = some c ∧ target ∈ c.watching) ∧
      ∀ uid a, d.accounts uid = some a →
        (a.presence.idle = true ↔ ∀ s ∈ a.sessions, ∀ c, d.sessions s = some c → c.idle = true) := by
  have hd := directorySystem_consistent h
  have hnames : ∀ uid a, d.accounts uid = some a → ∀ s ∈ a.sessions,
      ∃ c, d.sessions s = some c ∧ c.uid = uid := by
    intro uid a ha s hs
    obtain ⟨seat, hseat⟩ := ((hd.accountOk ha).seated.mem s).1 hs
    obtain ⟨c, hc, huid, _⟩ := SessionManager.seats_eq_some.1 hseat
    exact ⟨c, hc, huid⟩
  refine ⟨?_, ?_, ?_, hd.watched, ?_⟩
  · intro uid
    constructor
    · intro hsome
      obtain ⟨a, ha⟩ := Option.isSome_iff_exists.1 hsome
      obtain ⟨s, hs⟩ := List.exists_mem_of_ne_nil _ (hd.accountOk ha).1
      obtain ⟨c, hc, huid⟩ := hnames uid a ha s hs
      exact ⟨hd.account_pos uid hsome, s, c, hc, huid⟩
    · rintro ⟨hpos, s, c, hc, rfl⟩
      obtain ⟨a, ha, _⟩ := hd.listed hc hpos
      rw [ha]
      rfl
  · intro s c hc hpos uid
    constructor
    · rintro ⟨a, ha, hs⟩
      obtain ⟨c', hc', huid⟩ := hnames uid a ha s hs
      cases hc.symm.trans hc'
      exact huid.symm
    · rintro rfl
      exact hd.listed hc hpos
  · intro uid a ha
    have hseated := (hd.accountOk ha).seated
    refine ⟨hnames uid a ha, hseated.nodup, hseated.few, ?_⟩
    intro s hs s' hs' c c' hc hc' hdevice
    obtain ⟨_, hc₁, huid⟩ := hnames uid a ha s hs
    obtain ⟨_, hc₂, huid'⟩ := hnames uid a ha s' hs'
    cases hc.symm.trans hc₁
    cases hc'.symm.trans hc₂
    refine hseated.devices s s' c.deviceId c.idle c'.idle
      (SessionManager.seats_eq_some.2 ⟨c, hc, huid, rfl⟩)
      (SessionManager.seats_eq_some.2 ⟨c', hc', huid', ?_⟩)
    rw [hdevice]
  · intro uid a ha
    obtain ⟨_, hseated, hidle⟩ := hd.accountOk ha
    rw [hidle]
    constructor
    · intro hall s hs c hc
      obtain ⟨c', hc', huid⟩ := hnames uid a ha s hs
      cases hc.symm.trans hc'
      exact hall s c.deviceId c.idle (SessionManager.seats_eq_some.2 ⟨c, hc, huid, rfl⟩)
    · intro hall s device i hs
      obtain ⟨c, hc, huid, hseat⟩ := SessionManager.seats_eq_some.1 hs
      cases hseat
      exact hall s ((hseated.mem s).2 ⟨_, hs⟩) c hc

/-- A device signs in twice; the second connection watches somebody and goes idle. -/
def twoSignIns : SessionManager :=
  let login : LoginResult := { uid := 7, uid_pos := by decide, username := "ann", deviceId := "d",
                               device_named := by decide }
  ([.join 1, .bind 1 login {}, .join 2, .bind 2 login {}, .watch 2 7 [9], .setIdle 2 true,
    .retire 1 .replaced] : List DirectoryAct).foldl (fun d a => d.perform {} a) {}

theorem directory_consistent_twoSignIns :
    (2 ∈ twoSignIns.watchers 9 ↔ ∃ c, twoSignIns.sessions 2 = some c ∧ 9 ∈ c.watching) ∧
      2 ∈ twoSignIns.watchers 9 := by
  refine ⟨(directory_consistent ?_).2.2.2.1 9 2, by decide⟩
  unfold twoSignIns
  simp only [List.foldl_cons, List.foldl_nil]
  refine .step ({}, _) (.step ({}, _) (.step ({}, _) (.step ({}, _) (.step ({}, _) (.step ({}, _)
    (.step ({}, _) (.init rfl) rfl) rfl) rfl) rfl) rfl) rfl) rfl

end Decibell.Central
