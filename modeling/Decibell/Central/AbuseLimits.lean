import Decibell.Community.ConnectionLimits

/-!
# What the server allows an address

The server admits connections as a community does, but a timer makes its sweeps; and it has more to
remember of an address: password sign-ins and sign-ups. Failed sign-ins are counted for an account
from an address, and for an account from everywhere.
-/

-- some of what is proved about the tables uses no arithmetic
set_option linter.unusedSectionVars false

namespace Decibell

open Lib RateLimit Option

/-- The bucket of the server is made as that of a community. -/
abbrev RateBucket (K : Type) := TokenBucket K

variable {K : Type} [Zero K] [One K] [Add K] [Sub K] [Mul K] [Div K] [Min K]
  [LT K] [DecidableLT K] [LE K] [DecidableLE K] [NatCast K]

namespace RateBucket

def take (now : K) (b : RateBucket K) : Bool × RateBucket K := b.tryTake now

/-- The seconds until there is a token to take. -/
def wait (now : K) (b : RateBucket K) : K × RateBucket K := b.waitSeconds now

end RateBucket

namespace AbuseLimits

def maxConnectionsPerIp : Nat := 256

/-- The entries of each table. -/
def maxTracked : Nat := 500000

inductive Admit
  | ok
  | serverFull
  | addressFull
  | addressRate
  | tableFull
  deriving DecidableEq

/-- What is known of an address. -/
structure Address (K : Type) where
  opened : Nat := 0
  connects : RateBucket K
  passwords : RateBucket K
  signups : RateBucket K

end AbuseLimits

structure AbuseLimits (K : Type) where
  maxConnections : Nat
  opened : Nat := 0
  ips : Assoc String (AbuseLimits.Address K) := .empty
  /-- The failed sign-ins of an account from an address. -/
  failures : Assoc String (RateBucket K) := .empty
  accountFailures : Assoc String (RateBucket K) := .empty

namespace AbuseLimits

def Address.new (now : K) : Address K where
  connects := .new (60 : Nat) (10 : Nat) now
  passwords := .new (30 : Nat) ((1 : Nat) / (2 : Nat)) now
  signups := .new (10 : Nat) ((1 : Nat) / (120 : Nat)) now

def failedLoginBurst : K := (10 : Nat)
def accountFailedLoginBurst : K := (100 : Nat)
def failedLoginPerSecond : K := (1 : Nat) / (60 : Nat)

/-- Nothing open, and nothing to remember; what a bucket held before is looked at. -/
def Address.idle (now : K) (a : Address K) : Bool × Address K :=
  if a.opened ≠ 0 then (false, a)
  else
    let (full, connects) := a.connects.full now
    let a := { a with connects }
    if ! full then (false, a)
    else
      let (full, passwords) := a.passwords.full now
      let a := { a with passwords }
      if ! full then (false, a)
      else
        let (full, signups) := a.signups.full now
        (full, { a with signups })

/-- A connection from an address in the table. -/
def admitAddress (now : K) (ip : String) (a : Address K) (l : AbuseLimits K) :
    Admit × AbuseLimits K :=
  if maxConnectionsPerIp ≤ a.opened then (.addressFull, { l with ips := l.ips.insert ip a })
  else
    let (taken, connects) := a.connects.take now
    let a := { a with connects }
    if taken then
      (.ok, { l with
        opened := l.opened + 1
        ips := l.ips.insert ip { a with opened := a.opened + 1 } })
    else (.addressRate, { l with ips := l.ips.insert ip a })

/-- A new connection. -/
def admitConnection (now : K) (ip : String) (l : AbuseLimits K) : Admit × AbuseLimits K :=
  if l.maxConnections ≤ l.opened then (.serverFull, l)
  else
    match l.ips.get? ip with
    | some a => l.admitAddress now ip a
    | none =>
      if maxTracked ≤ l.ips.size then (.tableFull, l)
      else l.admitAddress now ip (.new now)

/-- A connection is gone. -/
def releaseConnection (ip : String) (l : AbuseLimits K) : AbuseLimits K :=
  match l.ips.get? ip with
  | none => l
  | some a =>
    if a.opened = 0 then l
    else
      { l with
        opened := l.opened - 1
        ips := l.ips.insert ip { a with opened := a.opened - 1 } }

/-- A password sign-in from an address. -/
def takePasswordAttempt (now : K) (ip : String) (l : AbuseLimits K) : Bool × AbuseLimits K :=
  match l.ips.get? ip with
  | none => (false, l)
  | some a =>
    let (taken, passwords) := a.passwords.take now
    (taken, { l with ips := l.ips.insert ip { a with passwords } })

def takeSignup (now : K) (ip : String) (l : AbuseLimits K) : Bool × AbuseLimits K :=
  match l.ips.get? ip with
  | none => (false, l)
  | some a =>
    let (taken, signups) := a.signups.take now
    (taken, { l with ips := l.ips.insert ip { a with signups } })

def pairKey (account ip : String) : String := account ++ "\n" ++ ip

/-- Whether the bucket of a key has to be waited for. -/
def blockedIn (now : K) (table : Assoc String (RateBucket K)) (key : String) :
    Bool × Assoc String (RateBucket K) :=
  match table.get? key with
  | none => (false, table)
  | some b =>
    let (seconds, b) := b.wait now
    (0 < seconds, table.insert key b)

/-- Too many failed sign-ins lately, from an address or from everywhere. -/
def accountBlocked (now : K) (account ip : String) (l : AbuseLimits K) : Bool × AbuseLimits K :=
  let (blocked, failures) := blockedIn now l.failures (pairKey account ip)
  let l := { l with failures }
  if blocked then (true, l)
  else
    let (blocked, accountFailures) := blockedIn now l.accountFailures account
    (blocked, { l with accountFailures })

/-- Takes a token of a key; a new key has a full bucket, if it fits in. -/
def takeFrom (now : K) (table : Assoc String (RateBucket K)) (key : String) (burst : K) :
    Assoc String (RateBucket K) :=
  match table.get? key with
  | some b => table.insert key (b.take now).2
  | none =>
    if maxTracked ≤ table.size then table
    else table.insert key (RateBucket.take now (.new burst failedLoginPerSecond now)).2

def recordFailedLogin (now : K) (account ip : String) (l : AbuseLimits K) : AbuseLimits K :=
  { l with
    failures := takeFrom now l.failures (pairKey account ip) failedLoginBurst
    accountFailures := takeFrom now l.accountFailures account accountFailedLoginBurst }

def recordLogin (account ip : String) (l : AbuseLimits K) : AbuseLimits K :=
  { l with failures := l.failures.remove (pairKey account ip) }

/-- The buckets that are not full. -/
def sweepBuckets (clock : String → K) (table : Assoc String (RateBucket K)) :
    Assoc String (RateBucket K) :=
  (table.retain fun key b => ! (b.full (clock key)).1).mapValues fun key b => (b.full (clock key)).2

def sweep (clock : String → K) (l : AbuseLimits K) : AbuseLimits K :=
  { l with
    ips := (l.ips.retain fun ip a => ! (a.idle (clock ip)).1).mapValues
      fun ip a => (a.idle (clock ip)).2
    failures := sweepBuckets clock l.failures
    accountFailures := sweepBuckets clock l.accountFailures }

/-! ## Runs -/

/-- The server's limits, and the addresses of the open connections. -/
structure Server (K : Type) where
  limits : AbuseLimits K
  connections : List String := []

/-- What may happen. -/
inductive Event (K : Type)
  | accept (now : K) (ip : String)
  | close (ip : String)
  | passwordAttempt (now : K) (ip : String)
  | signup (now : K) (ip : String)
  | askBlocked (now : K) (account ip : String)
  | failedLogin (now : K) (account ip : String)
  | login (account ip : String)
  | sweep (clock : String → K)

/-- The server after an event; only an open connection closes. -/
def Server.step (s : Server K) : Event K → Option (Server K)
  | .accept now ip =>
    let (answer, limits) := s.limits.admitConnection now ip
    some { limits, connections := if answer = .ok then ip :: s.connections else s.connections }
  | .close ip =>
    if ip ∈ s.connections then
      some { limits := s.limits.releaseConnection ip, connections := s.connections.erase ip }
    else none
  | .passwordAttempt now ip => some { s with limits := (s.limits.takePasswordAttempt now ip).2 }
  | .signup now ip => some { s with limits := (s.limits.takeSignup now ip).2 }
  | .askBlocked now account ip =>
    some { s with limits := (s.limits.accountBlocked now account ip).2 }
  | .failedLogin now account ip =>
    some { s with limits := s.limits.recordFailedLogin now account ip }
  | .login account ip => some { s with limits := s.limits.recordLogin account ip }
  | .sweep clock => some { s with limits := s.limits.sweep clock }

variable (K) in
def system (maxConnections : Nat) : System (Server K) (Event K) where
  init s := s = { limits := { maxConnections } }
  step s e s' := s.step e = some s'

/-! ## The account -/

/-- The connections counted are those open, within the caps, in bounded tables. -/
structure Accounts (l : AbuseLimits K) (maxConnections : Nat) (connections : List String) :
    Prop where
  max : l.maxConnections = maxConnections
  slots : Slots.Accounted Address.opened maxConnections maxConnectionsPerIp maxTracked l.ips
    l.opened connections
  failures : l.failures.size ≤ maxTracked
  accountFailures : l.accountFailures.size ≤ maxTracked

theorem Address.opened_idle (now : K) (a : Address K) : (a.idle now).2.opened = a.opened := by
  rw [Address.idle]
  split
  · rfl
  dsimp only
  split
  · rfl
  split
  · rfl
  · rfl

theorem Address.opened_of_idle (now : K) {a : Address K} (h : (a.idle now).1 = true) :
    a.opened = 0 := by
  rw [Address.idle] at h
  split at h
  · cases h
  · rename_i hopened
    exact not_not.1 hopened

theorem size_blockedIn (now : K) (table : Assoc String (RateBucket K)) (key : String) :
    (blockedIn now table key).2.size = table.size := by
  rw [blockedIn]
  cases hget : table.get? key with
  | none => rfl
  | some b => exact Assoc.size_insert_of_mem (isSome_iff_exists.2 ⟨b, hget⟩)

theorem size_takeFrom (now : K) {table : Assoc String (RateBucket K)} (key : String) (burst : K)
    (h : table.size ≤ maxTracked) : (takeFrom now table key burst).size ≤ maxTracked := by
  rw [takeFrom]
  cases hget : table.get? key with
  | some b =>
    dsimp only
    rw [Assoc.size_insert_of_mem (isSome_iff_exists.2 ⟨b, hget⟩)]
    exact h
  | none =>
    dsimp only
    split
    · exact h
    · rename_i hroom
      exact Nat.le_trans (Assoc.size_insert_le _ _ _) (Nat.lt_of_not_le hroom)

theorem size_sweepBuckets (clock : String → K) {table : Assoc String (RateBucket K)}
    (h : table.size ≤ maxTracked) : (sweepBuckets clock table).size ≤ maxTracked := by
  rw [sweepBuckets, Assoc.size_mapValues]
  exact Nat.le_trans Assoc.size_retain_le h

namespace Accounts

variable {maxConnections : Nat} {l : AbuseLimits K} {connections : List String}
  (h : l.Accounts maxConnections connections)

include h

theorem setAddress {ip : String} {a b : Address K} (hget : l.ips.get? ip = some a)
    (hb : b.opened = a.opened) :
    ({ l with ips := l.ips.insert ip b } : AbuseLimits K).Accounts maxConnections connections :=
  { h with
    slots := h.slots.put (hb.trans (Slots.slots_of_get? hget).symm)
      (.inl (isSome_iff_exists.2 ⟨a, hget⟩)) }

/-- An admitted connection is counted, if there is room for its address. -/
theorem admitAddress (now : K) {ip : String} {a : Address K} (htotal : l.opened < maxConnections)
    (ha : a.opened = Slots.slots Address.opened l.ips ip)
    (hroom : (l.ips.get? ip).isSome ∨ l.ips.size < maxTracked) :
    (l.admitAddress now ip a).2.Accounts maxConnections
      (if (l.admitAddress now ip a).1 = .ok then ip :: connections else connections) := by
  rw [AbuseLimits.admitAddress]
  split
  · exact { h with slots := h.slots.put ha hroom }
  · rename_i hcap
    dsimp only
    split
    · exact { h with
        slots := h.slots.take (congrArg (· + 1) ha) htotal (ha ▸ Nat.lt_of_not_le hcap) hroom }
    · exact { h with slots := h.slots.put ha hroom }

theorem admitConnection (now : K) (ip : String) :
    (l.admitConnection now ip).2.Accounts maxConnections
      (if (l.admitConnection now ip).1 = .ok then ip :: connections else connections) := by
  rw [AbuseLimits.admitConnection]
  split
  · exact h
  rename_i htotal
  rw [h.max, Nat.not_le] at htotal
  cases hget : l.ips.get? ip with
  | some a =>
    exact h.admitAddress now htotal (Slots.slots_of_get? hget).symm
      (.inl (isSome_iff_exists.2 ⟨a, hget⟩))
  | none =>
    dsimp only
    split
    · exact h
    · rename_i hroom
      have hnone : Slots.slots Address.opened l.ips ip = 0 := by
        rw [Slots.slots, hget]
        rfl
      exact h.admitAddress now htotal hnone.symm (.inr (Nat.lt_of_not_le hroom))

theorem releaseConnection {ip : String} (hip : ip ∈ connections) :
    (l.releaseConnection ip).Accounts maxConnections (connections.erase ip) := by
  obtain ⟨a, hget, ha⟩ := h.slots.remembered hip
  have hpos := List.count_pos_iff.2 hip
  have hopen : a.opened ≠ 0 := by omega
  rw [AbuseLimits.releaseConnection, hget]
  dsimp only
  rw [if_neg hopen]
  refine { h with slots := h.slots.give hip ?_ }
  rw [Slots.slots_of_get? hget]
  exact Nat.sub_add_cancel (Nat.pos_of_ne_zero hopen)

theorem takePasswordAttempt (now : K) (ip : String) :
    (l.takePasswordAttempt now ip).2.Accounts maxConnections connections := by
  rw [AbuseLimits.takePasswordAttempt]
  cases hget : l.ips.get? ip with
  | none => exact h
  | some a => exact h.setAddress hget rfl

theorem takeSignup (now : K) (ip : String) :
    (l.takeSignup now ip).2.Accounts maxConnections connections := by
  rw [AbuseLimits.takeSignup]
  cases hget : l.ips.get? ip with
  | none => exact h
  | some a => exact h.setAddress hget rfl

theorem accountBlocked (now : K) (account ip : String) :
    (l.accountBlocked now account ip).2.Accounts maxConnections connections := by
  have hpair := (size_blockedIn now l.failures (pairKey account ip)).trans_le h.failures
  have hall := (size_blockedIn now l.accountFailures account).trans_le h.accountFailures
  rw [AbuseLimits.accountBlocked]
  dsimp only
  split
  · exact { h with failures := hpair }
  · exact { h with failures := hpair, accountFailures := hall }

theorem recordFailedLogin (now : K) (account ip : String) :
    (l.recordFailedLogin now account ip).Accounts maxConnections connections :=
  { h with
    failures := size_takeFrom now _ _ h.failures
    accountFailures := size_takeFrom now _ _ h.accountFailures }

theorem recordLogin (account ip : String) :
    (l.recordLogin account ip).Accounts maxConnections connections :=
  { h with failures := Nat.le_trans Assoc.size_remove_le h.failures }

theorem sweep (clock : String → K) : (l.sweep clock).Accounts maxConnections connections where
  max := h.max
  slots := by
    refine Slots.Accounted.mapValues (Slots.Accounted.retain h.slots fun ip a hkeep => ?_)
      fun ip a => Address.opened_idle (clock ip) a
    exact Address.opened_of_idle (clock ip) (by simpa using hkeep)
  failures := size_sweepBuckets clock h.failures
  accountFailures := size_sweepBuckets clock h.accountFailures

end Accounts

theorem accounts_step {maxConnections : Nat} {s s' : Server K} {e : Event K}
    (h : s.limits.Accounts maxConnections s.connections) (hs : s.step e = some s') :
    s'.limits.Accounts maxConnections s'.connections := by
  cases e with
  | close ip =>
    rw [Server.step] at hs
    split at hs
    · rename_i hip
      obtain rfl := some.inj hs
      exact h.releaseConnection hip
    · cases hs
  | accept now ip =>
    obtain rfl := some.inj hs
    exact h.admitConnection now ip
  | passwordAttempt now ip =>
    obtain rfl := some.inj hs
    exact h.takePasswordAttempt now ip
  | signup now ip =>
    obtain rfl := some.inj hs
    exact h.takeSignup now ip
  | askBlocked now account ip =>
    obtain rfl := some.inj hs
    exact h.accountBlocked now account ip
  | failedLogin now account ip =>
    obtain rfl := some.inj hs
    exact h.recordFailedLogin now account ip
  | login account ip =>
    obtain rfl := some.inj hs
    exact h.recordLogin account ip
  | sweep clock =>
    obtain rfl := some.inj hs
    exact h.sweep clock

theorem accounts_of_reachable {maxConnections : Nat} {s : Server K}
    (hs : (system K maxConnections).Reachable s) :
    s.limits.Accounts maxConnections s.connections := by
  induction hs with
  | init h =>
    obtain rfl := h
    exact ⟨rfl, Slots.accounted_empty, Nat.zero_le _, Nat.zero_le _⟩
  | step e _ hstep ih => exact accounts_step ih hstep

end AbuseLimits

/-! ## Both -/

/-- In any run the connections counted in all are the sum of those of the addresses, within the
    caps, in a bounded table, and an address counts its open ones: none is forgotten. -/
theorem connections_accounted (maxConnections : Nat) :
    (∀ s, (ConnectionLimits.system K maxConnections).Reachable s →
      s.limits.opened = (s.limits.ips.rows.map fun e => e.2.opened).sum ∧
      s.limits.opened ≤ maxConnections ∧ (∀ e ∈ s.limits.ips.rows, e.2.opened ≤ 256) ∧
      s.limits.ips.size ≤ 100000 ∧ s.limits.opened = s.connections.length ∧
      ∀ ip ∈ s.connections, ∃ a, s.limits.ips.get? ip = some a ∧
        a.opened = s.connections.count ip) ∧
    (∀ s, (AbuseLimits.system K maxConnections).Reachable s →
      s.limits.opened = (s.limits.ips.rows.map fun e => e.2.opened).sum ∧
      s.limits.opened ≤ maxConnections ∧ (∀ e ∈ s.limits.ips.rows, e.2.opened ≤ 256) ∧
      s.limits.ips.size ≤ 500000 ∧ s.limits.opened = s.connections.length ∧
      (∀ ip ∈ s.connections, ∃ a, s.limits.ips.get? ip = some a ∧
        a.opened = s.connections.count ip) ∧
      s.limits.failures.size ≤ 500000 ∧ s.limits.accountFailures.size ≤ 500000) := by
  constructor
  · intro s hs
    have h := (ConnectionLimits.accounts_of_reachable hs).2
    exact ⟨h.sum_eq, h.le_total, fun e he => h.le_each_row he, h.le_bound, h.length_eq,
      fun ip hip => h.remembered hip⟩
  · intro s hs
    have h := AbuseLimits.accounts_of_reachable hs
    exact ⟨h.slots.sum_eq, h.slots.le_total, fun e he => h.slots.le_each_row he, h.slots.le_bound,
      h.slots.length_eq, fun ip hip => h.slots.remembered hip, h.failures, h.accountFailures⟩

-- a connection to a listener of a community, and one to the server
theorem connections_accounted_accept :
    (∃ s : ConnectionLimits.Listener Int, s.connections = ["::1"] ∧
      s.limits.opened = s.connections.length) ∧
    ∃ s : AbuseLimits.Server Int, s.connections = ["::1"] ∧
      s.limits.opened = s.connections.length := by
  constructor
  · refine ⟨_, ?_, ((connections_accounted 4).1 _
      (.step (.accept (fun _ => 0) "::1") (.init rfl) rfl)).2.2.2.2.1⟩
    rfl
  · refine ⟨_, ?_, ((connections_accounted 4).2 _
      (.step (.accept 0 "::1") (.init rfl) rfl)).2.2.2.2.1⟩
    rfl

end Decibell
