import Decibell.Lib.Log
import Decibell.Lib.Run
import Mathlib.Algebra.Order.Ring.Int
import Mathlib.Data.List.Count

/-!
# Where the relay sends to

A datagram's source address is whatever its sender wrote in it. The relay sends a session's traffic
to an address only once it has proven that it receives there: it gets a challenge with a random
cookie, and binds by echoing the cookie.
-/

namespace Decibell

open Lib List

structure UdpEndpoint where
  address : Nat := 0
  port : Nat := 0
  deriving DecidableEq

/-- The random bytes of a challenge. -/
abbrev Cookie := BitVec 64

def kChallengeInterval : Int := 250 * 1000000
def kCookieLifetime : Int := 10 * 1000000000

/-- One path of a session: voice or media. -/
structure UdpPath where
  /-- Port 0 until an echo has bound an address. -/
  bound : UdpEndpoint := {}
  candidate : UdpEndpoint := {}
  cookie : Cookie := 0
  /-- When the cookie was drawn. -/
  issuedAt : Int := 0
  /-- When the last challenge went out. -/
  lastSent : Int := 0
  sentAny : Bool := false
  /-- The cookie is live for the candidate. -/
  pending : Bool := false

namespace UdpPath

variable (p : UdpPath) (src : UdpEndpoint) (now : Int)

def isBoundTo : Bool := p.bound.port ≠ 0 && p.bound = src

/-- Whether the cookie that is out is sent again. -/
def resends : Bool := p.pending && src = p.candidate && now - p.issuedAt < kCookieLifetime

/-- A datagram from an address not bound: the cookie to send there, if any; `fresh` random bytes may
    fail. -/
def makeChallenge (fresh : Option Cookie) : Option Cookie × UdpPath :=
  if p.sentAny && now - p.lastSent < kChallengeInterval then (none, p)
  else if p.resends src now then (some p.cookie, { p with lastSent := now, sentAny := true })
  else
    match fresh with
    | none => (none, p)
    | some cookie =>
      (some cookie, { p with
        cookie, candidate := src, issuedAt := now, pending := true, lastSent := now,
        sentAny := true })

/-- An echo of a cookie: whether it binds. -/
def acceptEcho (cookie : Cookie) : Bool × UdpPath :=
  if ! p.pending || src ≠ p.candidate then (false, p)
  else if now - p.issuedAt > kCookieLifetime then (false, { p with pending := false })
  else if cookie ≠ p.cookie then (false, p)
  else (true, { p with pending := false, bound := src })

end UdpPath

/-! ## Runs -/

/-- A challenge went out, with a new cookie or one sent before; or an address was bound. -/
inductive PathEvent
  | challenged (dest : UdpEndpoint) (cookie : Cookie) (time : Int) (drawn : Bool)
  | bound (dest : UdpEndpoint) (cookie : Cookie) (time : Int)

/-- A path, and its history, the last event first. -/
structure PathRun where
  path : UdpPath := {}
  log : List PathEvent := []
  clock : Int := 0

/-- A datagram, with what the random generator would give; or an echo. -/
inductive PathAct
  | datagram (src : UdpEndpoint) (now : Int) (fresh : Option Cookie)
  | echo (src : UdpEndpoint) (now : Int) (cookie : Cookie)

namespace PathAct

def time : PathAct → Int
  | datagram _ now _ => now
  | echo _ now _ => now

end PathAct

namespace PathRun

variable (r : PathRun)

def perform : PathAct → PathRun
  | .datagram src now fresh =>
    let (sent, path) := r.path.makeChallenge src now fresh
    { path
      log := match sent with
        | some cookie => .challenged src cookie now (! r.path.resends src now) :: r.log
        | none => r.log
      clock := now }
  | .echo src now cookie =>
    let (binds, path) := r.path.acceptEcho src now cookie
    { path, log := if binds then .bound src cookie now :: r.log else r.log, clock := now }

/-- An echo that completes the challenge that is out. -/
def Completes : PathAct → Prop
  | .datagram .. => False
  | .echo src now cookie => r.path.pending ∧ src = r.path.candidate ∧ cookie = r.path.cookie ∧
      now - r.path.issuedAt ≤ kCookieLifetime

end PathRun

/-- The runs from a new path, in any order; the clock is steady. -/
def pathSystem : System PathRun PathAct where
  init r := r = { clock := r.clock }
  step r a r' := r.clock ≤ a.time ∧ r' = r.perform a

/-! ## What an act does -/

namespace PathEvent

/-- The time of a challenge. -/
def sentAt? : PathEvent → Option Int
  | challenged _ _ time _ => some time
  | bound .. => none

def drawn? : PathEvent → Option Cookie
  | challenged _ cookie _ drawn => if drawn then some cookie else none
  | bound .. => none

def bound? : PathEvent → Option Cookie
  | challenged .. => none
  | bound _ cookie _ => some cookie

/-- An address binds by a cookie sent to it not long before. -/
def Answers (past : List PathEvent) : PathEvent → Prop
  | challenged .. => True
  | bound src cookie now => ∃ time drawn, challenged src cookie time drawn ∈ past ∧ time ≤ now ∧
      now - time ≤ kCookieLifetime

end PathEvent

/-- The address of the last bind. -/
def lastBound : List PathEvent → UdpEndpoint
  | [] => {}
  | .challenged .. :: log => lastBound log
  | .bound src _ _ :: _ => src

/-- What holds of a path and its history. -/
structure PathInv (r : PathRun) : Prop where
  bound : r.path.bound = lastBound r.log
  answers : EachAfter PathEvent.Answers r.log
  /-- The cookie that is out was drawn for the candidate. -/
  live : r.path.pending → .challenged r.path.candidate r.path.cookie r.path.issuedAt true ∈ r.log
  issued : r.path.pending → r.path.issuedAt ≤ r.clock
  /-- The last challenge is the last in the history. -/
  paced : ∀ time ∈ r.log.filterMap PathEvent.sentAt?, r.path.sentAny ∧ time ≤ r.path.lastSent
  apart : (r.log.filterMap PathEvent.sentAt?).Pairwise fun later earlier =>
    earlier + kChallengeInterval ≤ later
  /-- Drawn cookies that bound are used up, and the one out is not. -/
  single : ∀ c, (r.log.filterMap PathEvent.bound?).count c +
    (if r.path.pending ∧ r.path.cookie = c then 1 else 0) ≤
      (r.log.filterMap PathEvent.drawn?).count c

variable {r : PathRun}

/-- A datagram changes nothing, resends the cookie that is out, or sends a fresh one. -/
theorem datagram_cases (r : PathRun) (src : UdpEndpoint) (now : Int) (fresh : Option Cookie) :
    r.perform (.datagram src now fresh) = { r with clock := now } ∨
    (r.path.sentAny = true → r.path.lastSent + kChallengeInterval ≤ now) ∧
      ((r.path.pending = true ∧ src = r.path.candidate ∧
        r.perform (.datagram src now fresh) =
          { path := { r.path with lastSent := now, sentAny := true }
            log := .challenged src r.path.cookie now false :: r.log
            clock := now }) ∨
      ∃ cookie, r.perform (.datagram src now fresh) =
        { path := { r.path with
            cookie, candidate := src, issuedAt := now, pending := true, lastSent := now,
            sentAny := true }
          log := .challenged src cookie now true :: r.log
          clock := now }) := by
  unfold PathRun.perform UdpPath.makeChallenge
  dsimp only
  by_cases hpaced : (r.path.sentAny && now - r.path.lastSent < kChallengeInterval) = true
  · rw [if_pos hpaced]
    exact .inl rfl
  · rw [if_neg hpaced]
    have hapart : r.path.sentAny = true → r.path.lastSent + kChallengeInterval ≤ now := by
      intro hsent
      rw [hsent, Bool.true_and, decide_eq_true_eq] at hpaced
      omega
    by_cases hresends : r.path.resends src now = true
    · rw [if_pos hresends]
      refine .inr ⟨hapart, .inl ?_⟩
      have hparts := hresends
      rw [UdpPath.resends, Bool.and_eq_true, Bool.and_eq_true, decide_eq_true_eq] at hparts
      refine ⟨hparts.1.1, hparts.1.2, ?_⟩
      dsimp only
      rw [hresends]
      rfl
    · rw [if_neg hresends, Bool.not_eq_true _ |>.mp hresends]
      cases fresh with
      | none => exact .inl rfl
      | some cookie => exact .inr ⟨hapart, .inr ⟨cookie, rfl⟩⟩

/-- An echo changes nothing, ends the challenge out, or answers it in time and binds. -/
theorem echo_cases (r : PathRun) (src : UdpEndpoint) (now : Int) (cookie : Cookie) :
    (r.perform (.echo src now cookie) = { r with clock := now } ∨
      r.perform (.echo src now cookie) =
        { r with path := { r.path with pending := false }, clock := now }) ∨
    r.path.pending = true ∧ src = r.path.candidate ∧ cookie = r.path.cookie ∧
      now - r.path.issuedAt ≤ kCookieLifetime ∧
      r.perform (.echo src now cookie) =
        { path := { r.path with pending := false, bound := src }
          log := .bound src cookie now :: r.log
          clock := now } := by
  unfold PathRun.perform UdpPath.acceptEcho
  dsimp only
  split
  · exact .inl (.inl rfl)
  · rename_i hcandidate
    split
    · exact .inl (.inr rfl)
    · rename_i hlate
      split
      · exact .inl (.inl rfl)
      · rename_i hcookie
        rw [Bool.or_eq_true, not_or, Bool.not_eq_true', Bool.not_eq_false, decide_eq_true_eq,
          not_not] at hcandidate
        exact .inr ⟨hcandidate.1, hcandidate.2, not_not.1 hcookie, not_lt.1 hlate, rfl⟩

/-! ## The invariant -/

theorem PathInv.init (clock : Int) : PathInv { clock } where
  bound := rfl
  answers := trivial
  live h := nomatch h
  issued h := nomatch h
  paced _ h := nomatch h
  apart := .nil
  single _ := le_rfl

theorem PathInv.later (h : PathInv r) {now : Int} (hnow : r.clock ≤ now) :
    PathInv { r with clock := now } :=
  { h with issued := fun hpending => (h.issued hpending).trans hnow }

theorem PathInv.ended (h : PathInv r) :
    PathInv { r with path := { r.path with pending := false } } where
  bound := h.bound
  answers := h.answers
  live hpending := nomatch hpending
  issued h := nomatch h
  paced := h.paced
  apart := h.apart
  single c := by
    rw [if_neg fun hpending => nomatch hpending.1]
    exact (Nat.le_add_right _ _).trans (h.single c)

theorem PathInv.sent (h : PathInv r) {now : Int} (src : UdpEndpoint) (cookie : Cookie)
    (drawn : Bool)
    (hapart : r.path.sentAny = true → r.path.lastSent + kChallengeInterval ≤ now) :
    (∀ time ∈ ((PathEvent.challenged src cookie now drawn :: r.log).filterMap PathEvent.sentAt?),
      time ≤ now) ∧
    ((PathEvent.challenged src cookie now drawn :: r.log).filterMap PathEvent.sentAt?).Pairwise
      fun later earlier => earlier + kChallengeInterval ≤ later := by
  have hearlier : ∀ time ∈ r.log.filterMap PathEvent.sentAt?, time + kChallengeInterval ≤ now := by
    intro time htime
    obtain ⟨hsent, hle⟩ := h.paced time htime
    have hinterval := hapart hsent
    omega
  have hcons : (PathEvent.challenged src cookie now drawn :: r.log).filterMap PathEvent.sentAt? =
      now :: r.log.filterMap PathEvent.sentAt? := rfl
  rw [hcons]
  refine ⟨?_, h.apart.cons hearlier⟩
  intro time htime
  rcases mem_cons.1 htime with rfl | htime
  · exact le_rfl
  · have hle := hearlier time htime
    unfold kChallengeInterval at hle
    omega

theorem PathInv.datagram (h : PathInv r) {src : UdpEndpoint} {now : Int} {fresh : Option Cookie}
    (hnow : r.clock ≤ now) : PathInv (r.perform (.datagram src now fresh)) := by
  rcases datagram_cases r src now fresh with heq | ⟨hapart, ⟨hpending, rfl, heq⟩ | ⟨cookie, heq⟩⟩
  · rw [heq]
    exact h.later hnow
  · -- the cookie that is out goes again: no cookie is drawn
    obtain ⟨hle, hpairwise⟩ := h.sent r.path.candidate r.path.cookie false hapart
    rw [heq]
    exact
      { bound := h.bound
        answers := h.answers.cons trivial
        live := fun hpending => mem_cons_of_mem _ (h.live hpending)
        issued := fun hpending => (h.issued hpending).trans hnow
        paced := fun time htime => ⟨rfl, hle time htime⟩
        apart := hpairwise
        single := h.single }
  · -- the new cookie takes the place of one that was out, if any
    obtain ⟨hle, hpairwise⟩ := h.sent src cookie true hapart
    have hsingle : ∀ c, (r.log.filterMap PathEvent.bound?).count c +
        (if cookie = c then 1 else 0) ≤
          (cookie :: r.log.filterMap PathEvent.drawn?).count c := by
      intro c
      have hbefore := (Nat.le_add_right _ _).trans (h.single c)
      rw [count_cons]
      simp only [beq_iff_eq]
      omega
    rw [heq]
    exact
      { bound := h.bound
        answers := h.answers.cons trivial
        live := fun _ => mem_cons_self
        issued := fun _ => le_rfl
        paced := fun time htime => ⟨rfl, hle time htime⟩
        apart := hpairwise
        single := fun c => by
          rw [if_congr (and_iff_right rfl) rfl rfl]
          exact hsingle c }

theorem PathInv.echo (h : PathInv r) {src : UdpEndpoint} {now : Int} {cookie : Cookie}
    (hnow : r.clock ≤ now) : PathInv (r.perform (.echo src now cookie)) := by
  rcases echo_cases r src now cookie with (heq | heq) | ⟨hpending, rfl, rfl, hlife, heq⟩
  · rw [heq]
    exact h.later hnow
  · rw [heq]
    exact h.ended.later hnow
  · -- the cookie that is out is used up
    have hsingle : ∀ c, (r.path.cookie :: r.log.filterMap PathEvent.bound?).count c ≤
        (r.log.filterMap PathEvent.drawn?).count c := by
      intro c
      have hbefore := h.single c
      rw [if_congr (and_iff_right hpending) rfl rfl] at hbefore
      rw [count_cons]
      simp only [beq_iff_eq]
      exact hbefore
    rw [heq]
    exact
      { bound := rfl
        answers := h.answers.cons ⟨r.path.issuedAt, true, h.live hpending,
          (h.issued hpending).trans hnow, hlife⟩
        live := fun h => nomatch h
        issued := fun h => nomatch h
        paced := h.paced
        apart := h.apart
        single := fun c => by
          rw [if_neg fun hpending => nomatch hpending.1]
          exact hsingle c }

theorem PathInv.perform (h : PathInv r) {a : PathAct} (hnow : r.clock ≤ a.time) :
    PathInv (r.perform a) := by
  cases a with
  | datagram src now fresh => exact h.datagram hnow
  | echo src now cookie => exact h.echo hnow

theorem PathInv.of_reachable (h : pathSystem.Reachable r) : PathInv r := by
  refine System.reachable_invariant (I := PathInv) ?_ ?_ h
  · intro s hinit
    rw [hinit]
    exact .init s.clock
  · intro s a s' hs hstep
    rw [hstep.2]
    exact hs.perform hstep.1

/-! ## Return routability -/

theorem PathRun.bound_of_not_completes {a : PathAct} (h : ¬ r.Completes a) :
    (r.perform a).path.bound = r.path.bound := by
  cases a with
  | datagram src now fresh =>
    rcases datagram_cases r src now fresh with heq | ⟨_, ⟨_, _, heq⟩ | ⟨_, heq⟩⟩ <;> rw [heq]
  | echo src now cookie =>
    rcases echo_cases r src now cookie with (heq | heq) | ⟨hpending, hsrc, hcookie, hlife, heq⟩
    · rw [heq]
    · rw [heq]
    · exact absurd ⟨hpending, hsrc, hcookie, hlife⟩ h

/-- In every run, whoever sends what and when, the bound address is the last bind's. Every bind was
    by a cookie that went to just that address within a challenge's life. A packet that completes no
    challenge does not move the path. A cookie binds no more often than it was drawn. Challenges
    keep the interval. -/
theorem return_routability (h : pathSystem.Reachable r) :
    r.path.bound = lastBound r.log ∧
    (∀ later past src cookie now, r.log = later ++ .bound src cookie now :: past →
      ∃ time drawn, .challenged src cookie time drawn ∈ past ∧
        time ≤ now ∧ now - time ≤ kCookieLifetime) ∧
    (∀ a, ¬ r.Completes a → (r.perform a).path.bound = r.path.bound) ∧
    (∀ cookie, (r.log.filterMap PathEvent.bound?).count cookie ≤
      (r.log.filterMap PathEvent.drawn?).count cookie) ∧
    ((r.log.filterMap PathEvent.drawn?).Nodup → (r.log.filterMap PathEvent.bound?).Nodup) ∧
    (r.log.filterMap PathEvent.sentAt?).Pairwise fun later earlier =>
      earlier + kChallengeInterval ≤ later := by
  have hinv := PathInv.of_reachable h
  have hcount : ∀ cookie, (r.log.filterMap PathEvent.bound?).count cookie ≤
      (r.log.filterMap PathEvent.drawn?).count cookie :=
    fun cookie => (Nat.le_add_right _ _).trans (hinv.single cookie)
  refine ⟨hinv.bound, ?_, fun a => PathRun.bound_of_not_completes, hcount, ?_, hinv.apart⟩
  · intro later past src cookie now hlog
    exact eachAfter_iff.1 hinv.answers later _ past hlog
  · intro hdrawn
    rw [List.nodup_iff_count] at hdrawn ⊢
    exact fun cookie => (hcount cookie).trans (hdrawn cookie)

/-- An address asks, echoes what it is sent, and is bound. -/
def boundRun : PathRun :=
  let r : PathRun := {}
  let r := r.perform (.datagram ⟨7, 4000⟩ 0 (some 5))
  r.perform (.echo ⟨7, 4000⟩ 1000 5)

theorem boundRun_reachable : pathSystem.Reachable boundRun :=
  have hinit : pathSystem.Reachable {} := .init rfl
  .step (.echo ⟨7, 4000⟩ 1000 5)
    (.step (.datagram ⟨7, 4000⟩ 0 (some 5)) hinit ⟨by decide, rfl⟩) ⟨by decide, rfl⟩

theorem return_routability_boundRun : boundRun.path.bound = ⟨7, 4000⟩ ∧
    lastBound boundRun.log = ⟨7, 4000⟩ :=
  ⟨rfl, (return_routability boundRun_reachable).1.symm⟩

end Decibell
