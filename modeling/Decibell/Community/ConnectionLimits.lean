import Decibell.Community.RateLimit
import Decibell.Lib.Run
import Decibell.Lib.Slots

/-!
# The connections of a community

Each of the two listeners of a community admits a number of connections in all, and a number from
each address, which may not come too fast either.
-/

-- some of what is proved about the table uses no arithmetic
set_option linter.unusedSectionVars false

namespace Decibell

open Lib RateLimit

namespace ConnectionLimits

def maxConnectionsPerIp : Nat := 256
def maxTracked : Nat := 100000
def firstSweep : Nat := 1024

inductive Admit
  | ok
  | serverFull
  | addressFull
  | addressRate
  | tableFull
  deriving DecidableEq

/-- An address's open connections, and the bucket of new ones. -/
structure Address (K : Type) where
  opened : Nat := 0
  connects : TokenBucket K

end ConnectionLimits

/-- The state of the limits of a listener. -/
structure ConnectionLimits (K : Type) where
  maxConnections : Nat
  opened : Nat := 0
  nextSweep : Nat := ConnectionLimits.firstSweep
  ips : Assoc String (ConnectionLimits.Address K) := .empty

namespace ConnectionLimits

variable {K : Type} [Zero K] [One K] [Add K] [Sub K] [Mul K] [Div K] [Min K]
  [LT K] [DecidableLT K] [LE K] [DecidableLE K] [NatCast K]

def Address.new (now : K) : Address K := { connects := .new (60 : Nat) (10 : Nat) now }

/-- Nothing open, and nothing to remember; the bucket is looked at only then. -/
def Address.idle (now : K) (a : Address K) : Bool × Address K :=
  if a.opened = 0 then ((a.connects.full now).1, { a with connects := (a.connects.full now).2 })
  else (false, a)

def sweepLocked (clock : String → K) (l : ConnectionLimits K) : ConnectionLimits K :=
  { l with
    ips := (l.ips.retain fun ip a => ! (a.idle (clock ip)).1).mapValues
      fun ip a => (a.idle (clock ip)).2 }

/-- Makes room for a new address, if it is time for a sweep. -/
def sweepIfDue (clock : String → K) (l : ConnectionLimits K) : ConnectionLimits K :=
  if l.nextSweep ≤ l.ips.size then
    let l := l.sweepLocked clock
    { l with nextSweep := max firstSweep (l.ips.size * 2) }
  else l

def admitAddress (now : K) (ip : String) (a : Address K) (l : ConnectionLimits K) :
    Admit × ConnectionLimits K :=
  if maxConnectionsPerIp ≤ a.opened then (.addressFull, { l with ips := l.ips.insert ip a })
  else
    let (taken, connects) := a.connects.tryTake now
    if taken then
      (.ok, { l with
        opened := l.opened + 1
        ips := l.ips.insert ip { opened := a.opened + 1, connects } })
    else (.addressRate, { l with ips := l.ips.insert ip { a with connects } })

/-- `admit`: a new connection. -/
def admitConnection (clock : String → K) (ip : String) (l : ConnectionLimits K) :
    Admit × ConnectionLimits K :=
  if l.maxConnections ≤ l.opened then (.serverFull, l)
  else
    match l.ips.get? ip with
    | some a => l.admitAddress (clock ip) ip a
    | none =>
      let l := l.sweepIfDue clock
      if maxTracked ≤ l.ips.size then (.tableFull, l)
      else l.admitAddress (clock ip) ip (.new (clock ip))

/-- A connection is gone. -/
def release (ip : String) (l : ConnectionLimits K) : ConnectionLimits K :=
  match l.ips.get? ip with
  | none => l
  | some a =>
    if a.opened = 0 then l
    else
      { l with
        opened := l.opened - 1
        ips := l.ips.insert ip { a with opened := a.opened - 1 } }

/-! ## Runs -/

/-- A listener's limits, and the addresses of the open connections. -/
structure Listener (K : Type) where
  limits : ConnectionLimits K
  connections : List String := []

/-- What may happen; a sweep may come at any time, not just with an admission. -/
inductive Event (K : Type)
  | accept (clock : String → K) (ip : String)
  | close (ip : String)
  | sweep (clock : String → K)

/-- The listener after an event; only an open connection closes. -/
def Listener.step (s : Listener K) : Event K → Option (Listener K)
  | .accept clock ip =>
    let (answer, limits) := s.limits.admitConnection clock ip
    some { limits, connections := if answer = .ok then ip :: s.connections else s.connections }
  | .close ip =>
    if ip ∈ s.connections then
      some { limits := s.limits.release ip, connections := s.connections.erase ip }
    else none
  | .sweep clock => some { s with limits := s.limits.sweepLocked clock }

variable (K) in
def system (maxConnections : Nat) : System (Listener K) (Event K) where
  init s := s = { limits := { maxConnections } }
  step s e s' := s.step e = some s'

/-! ## The account -/

/-- The connections counted are those open, within the caps. -/
def Accounts (l : ConnectionLimits K) (maxConnections : Nat) (connections : List String) : Prop :=
  l.maxConnections = maxConnections ∧ Slots.Accounted Address.opened maxConnections
    maxConnectionsPerIp maxTracked l.ips l.opened connections

theorem Address.opened_idle (now : K) (a : Address K) : (a.idle now).2.opened = a.opened := by
  rw [Address.idle]
  split
  · rfl
  · rfl

theorem Address.opened_of_idle (now : K) {a : Address K} (h : (a.idle now).1 = true) :
    a.opened = 0 := by
  rw [Address.idle] at h
  split at h
  · assumption
  · cases h

namespace Accounts

variable {maxConnections : Nat} {l : ConnectionLimits K} {connections : List String}
  (h : l.Accounts maxConnections connections)

include h

theorem sweepLocked (clock : String → K) :
    (l.sweepLocked clock).Accounts maxConnections connections := by
  refine ⟨h.1, Slots.Accounted.mapValues (Slots.Accounted.retain h.2 fun ip a hkeep => ?_)
    fun ip a => Address.opened_idle (clock ip) a⟩
  exact Address.opened_of_idle (clock ip) (by simpa using hkeep)

theorem sweepIfDue (clock : String → K) :
    (l.sweepIfDue clock).Accounts maxConnections connections := by
  rw [ConnectionLimits.sweepIfDue]
  split
  · exact h.sweepLocked clock
  · exact h

/-- An admitted connection is counted, if there is room for its address. -/
theorem admitAddress (now : K) {ip : String} {a : Address K} (htotal : l.opened < maxConnections)
    (ha : a.opened = Slots.slots Address.opened l.ips ip)
    (hroom : (l.ips.get? ip).isSome ∨ l.ips.size < maxTracked) :
    (l.admitAddress now ip a).2.Accounts maxConnections
      (if (l.admitAddress now ip a).1 = .ok then ip :: connections else connections) := by
  rw [ConnectionLimits.admitAddress]
  split
  · exact ⟨h.1, h.2.put ha hroom⟩
  · rename_i hcap
    dsimp only
    split
    · exact ⟨h.1, h.2.take (congrArg (· + 1) ha) htotal (ha ▸ Nat.lt_of_not_le hcap) hroom⟩
    · exact ⟨h.1, h.2.put ha hroom⟩

theorem admitConnection (clock : String → K) (ip : String) :
    (l.admitConnection clock ip).2.Accounts maxConnections
      (if (l.admitConnection clock ip).1 = .ok then ip :: connections else connections) := by
  rw [ConnectionLimits.admitConnection]
  split
  · exact h
  rename_i htotal
  rw [h.1, Nat.not_le] at htotal
  cases hget : l.ips.get? ip with
  | some a =>
    exact h.admitAddress (clock ip) htotal (Slots.slots_of_get? hget).symm
      (.inl (Option.isSome_iff_exists.2 ⟨a, hget⟩))
  | none =>
    have hswept := h.sweepIfDue clock
    have hopened : (l.sweepIfDue clock).opened = l.opened := by
      rw [ConnectionLimits.sweepIfDue]
      split
      · rfl
      · rfl
    dsimp only
    split
    · exact hswept
    · rename_i hroom
      -- what a sweep leaves out of the table is not put there by it
      have hnone : Slots.slots Address.opened (l.sweepIfDue clock).ips ip = 0 := by
        rw [hswept.2.count, ← h.2.count, Slots.slots, hget]
        rfl
      exact hswept.admitAddress (clock ip) (hopened ▸ htotal) hnone.symm
        (.inr (Nat.lt_of_not_le hroom))

theorem release {ip : String} (hip : ip ∈ connections) :
    (l.release ip).Accounts maxConnections (connections.erase ip) := by
  obtain ⟨a, hget, ha⟩ := h.2.remembered hip
  have hpos := List.count_pos_iff.2 hip
  have hopen : a.opened ≠ 0 := by omega
  rw [ConnectionLimits.release, hget]
  dsimp only
  rw [if_neg hopen]
  refine ⟨h.1, h.2.give hip ?_⟩
  rw [Slots.slots_of_get? hget]
  exact Nat.sub_add_cancel (Nat.pos_of_ne_zero hopen)

end Accounts

theorem accounts_step {maxConnections : Nat} {s s' : Listener K} {e : Event K}
    (h : s.limits.Accounts maxConnections s.connections) (hs : s.step e = some s') :
    s'.limits.Accounts maxConnections s'.connections := by
  cases e with
  | accept clock ip =>
    obtain rfl := Option.some.inj hs
    exact h.admitConnection clock ip
  | close ip =>
    rw [Listener.step] at hs
    split at hs
    · rename_i hip
      obtain rfl := Option.some.inj hs
      exact h.release hip
    · cases hs
  | sweep clock =>
    obtain rfl := Option.some.inj hs
    exact h.sweepLocked clock

theorem accounts_of_reachable {maxConnections : Nat} {s : Listener K}
    (hs : (system K maxConnections).Reachable s) :
    s.limits.Accounts maxConnections s.connections := by
  induction hs with
  | init h =>
    obtain rfl := h
    exact ⟨rfl, Slots.accounted_empty⟩
  | step e _ hstep ih => exact accounts_step ih hstep

end ConnectionLimits
end Decibell
