import Decibell.Community.RateLimit
import Decibell.Lib.Run
import Decibell.Lib.TokenBucket
import Mathlib.Algebra.Order.Ring.Rat
import Mathlib.Tactic.Ring

/-!
# Runs of a bucket

The calls of one bucket, at times that do not go back, and the takes they made. In every run no
window of time sees more takes than the capacity and the rate allow, and the wait a bucket tells is
the exact one: with no take in between, a take succeeds from its end on and not before
(`limits_rate`).
-/

namespace Decibell.RateLimit

open Lib List

variable {K : Type} [Field K] [LinearOrder K]

inductive Call (K : Type)
  | tryTake (now : K)
  | waitSeconds (now : K)
  | full (now : K)

def Call.now : Call K → K
  | .tryTake now | .waitSeconds now | .full now => now

/-- A bucket, and when its tokens were taken. -/
structure Use (K : Type) where
  bucket : TokenBucket K
  takes : List K := []

/-- The state after a call. -/
def Use.call (s : Use K) : Call K → Use K
  | .tryTake now =>
    let (taken, bucket) := s.bucket.tryTake now
    ⟨bucket, if taken then s.takes ++ [now] else s.takes⟩
  | .waitSeconds now => { s with bucket := (s.bucket.waitSeconds now).2 }
  | .full now => { s with bucket := (s.bucket.full now).2 }

def uses (capacity refillPerSec : K) : System (Use K) (Call K) where
  init s := ∃ now, s = { bucket := .new capacity refillPerSec now }
  step s c s' := s.bucket.last ≤ c.now ∧ s' = s.call c

/-- The runs in which no call takes a token. -/
def idles (capacity refillPerSec : K) : System (Use K) (Call K) :=
  (uses capacity refillPerSec).given fun s c => (s.call c).takes = s.takes

namespace Use

variable {capacity rate : K} {s s' : Use K} {c : Call K}

/-- Every call refills the bucket, and one may take a token of it. -/
theorem call_cases (s : Use K) (c : Call K) :
    s.call c = { s with bucket := s.bucket.refill c.now } ∨
      1 ≤ (s.bucket.refill c.now).tokens ∧
        s.call c = ⟨{ s.bucket.refill c.now with tokens := (s.bucket.refill c.now).tokens - 1 },
          s.takes ++ [c.now]⟩ := by
  cases c with
  | tryTake now =>
    by_cases h : (s.bucket.refill now).tokens < 1
    · left
      simp [call, TokenBucket.tryTake, h, Call.now]
    · right
      simp [call, TokenBucket.tryTake, h, Call.now, not_lt.1 h]
  | waitSeconds now => exact .inl rfl
  | full now => exact .inl rfl

/-- The bucket has its tokens by the takes. -/
structure Accounted (capacity rate : K) (s : Use K) : Prop where
  capacity_eq : s.bucket.capacity = capacity
  rate_eq : s.bucket.refillPerSec = rate
  accounts : Lib.TokenBucket.Accounts capacity rate s.takes ⟨s.bucket.tokens, s.bucket.last⟩

/-- Since a time the bucket was only refilled. -/
structure Idle (capacity rate tokens now : K) (b : TokenBucket K) : Prop where
  capacity_eq : b.capacity = capacity
  rate_eq : b.refillPerSec = rate
  later : now ≤ b.last
  tokens_eq : b.tokens = min capacity (tokens + (b.last - now) * rate)

variable [IsStrictOrderedRing K]

theorem Accounted.call (h : Accounted capacity rate s) (hcapacity : 0 ≤ capacity) (hrate : 0 ≤ rate)
    (hnow : s.bucket.last ≤ c.now) : Accounted capacity rate (s.call c) := by
  have hfull := h.accounts.refill hcapacity hrate hnow
  obtain ⟨rfl, rfl, -⟩ := h
  rcases call_cases s c with hcall | ⟨htoken, hcall⟩ <;> rw [hcall]
  · exact ⟨rfl, rfl, hfull⟩
  · exact ⟨rfl, rfl, hfull.take hrate htoken⟩

theorem accounted_of_reachable (hcapacity : 0 ≤ capacity) (hrate : 0 ≤ rate)
    (hs : (uses capacity rate).Reachable s) : Accounted capacity rate s := by
  refine System.reachable_invariant ?_ ?_ hs
  · rintro _ ⟨now, rfl⟩
    exact ⟨rfl, rfl, Lib.TokenBucket.accounts_full hcapacity hrate⟩
  · rintro s c _ h ⟨hnow, rfl⟩
    exact h.call hcapacity hrate hnow

/-- Two refills are one. -/
theorem Idle.refill {tokens now : K} {b : TokenBucket K} (h : Idle capacity rate tokens now b)
    (hrate : 0 ≤ rate) {t : K} (ht : b.last ≤ t) :
    Idle capacity rate tokens now (b.refill t) where
  capacity_eq := h.capacity_eq
  rate_eq := h.rate_eq
  later := h.later.trans ht
  tokens_eq := by
    have hadd : 0 ≤ (t - b.last) * rate := mul_nonneg (sub_nonneg.2 ht) hrate
    have hsum : tokens + (b.last - now) * rate + (t - b.last) * rate =
        tokens + (t - now) * rate := by ring
    change min b.capacity (b.tokens + (t - b.last) * b.refillPerSec) =
      min capacity (tokens + (t - now) * rate)
    rw [h.capacity_eq, h.rate_eq, h.tokens_eq, ← min_add_add_right, hsum, ← min_assoc,
      min_eq_left (le_add_of_nonneg_right hadd)]

theorem Idle.runs {tokens now : K} (hrate : 0 ≤ rate) {between : List (Call K)}
    (hs : (idles capacity rate).Runs s between s') (h : Idle capacity rate tokens now s.bucket) :
    Idle capacity rate tokens now s'.bucket := by
  induction hs with
  | nil => exact h
  | @cons s _ _ c _ hs _ ih =>
    obtain ⟨⟨hnow, rfl⟩, htakes⟩ := hs
    refine ih ?_
    rcases call_cases s c with hcall | ⟨-, hcall⟩
    · exact hcall ▸ h.refill hrate hnow
    · exact absurd (hcall ▸ htakes) (by simp)

/-- A bucket that was only refilled has a token once the wait it told is over. -/
theorem Idle.tryTake_iff {b b' : TokenBucket K} {now t : K}
    (h : Idle capacity rate (b.refill now).tokens now b') (hcapacity : 1 ≤ capacity)
    (hrate : 0 < rate) (hb : b.refillPerSec = rate) (ht : b'.last ≤ t) :
    (b'.tryTake t).1 = true ↔ now + (b.waitSeconds now).1 ≤ t := by
  have htokens : (b'.refill t).tokens = min capacity ((b.refill now).tokens + (t - now) * rate) :=
    (h.refill hrate.le ht).tokens_eq
  have hnow : now ≤ t := h.later.trans ht
  have htake : (b'.tryTake t).1 = true ↔ 1 ≤ (b.refill now).tokens + (t - now) * rate := by
    simp only [TokenBucket.tryTake]
    split <;> rename_i hlt
    · rw [htokens] at hlt
      simpa [hcapacity.not_gt] using hlt
    · rw [htokens, not_lt, le_min_iff] at hlt
      simpa using hlt.2
  rw [htake]
  simp only [TokenBucket.waitSeconds]
  split <;> rename_i hone
  · have : 0 ≤ (t - now) * rate := mul_nonneg (sub_nonneg.2 hnow) hrate.le
    exact iff_of_true (by linarith) (by simpa using hnow)
  · have hrefill : (b.refill now).refillPerSec = rate := hb
    rw [← le_sub_iff_add_le', hrefill, div_le_iff₀ hrate, sub_le_iff_le_add']

end Use

variable [IsStrictOrderedRing K]

/-- The takes of a bucket keep to its capacity and rate in every window, and with no take after it
was asked for its wait one succeeds when the wait is over, and not before. -/
theorem limits_rate {capacity rate : K} (hcapacity : 1 ≤ capacity) (hrate : 0 < rate) {s : Use K}
    (hs : (uses capacity rate).Reachable s) :
    Lib.TokenBucket.Within capacity rate s.takes ∧
      ∀ now, s.bucket.last ≤ now → ∀ between s',
        (idles capacity rate).Runs (s.call (.waitSeconds now)) between s' →
          ∀ t, s'.bucket.last ≤ t →
            ((s'.bucket.tryTake t).1 = true ↔ now + (s.bucket.waitSeconds now).1 ≤ t) := by
  have h := Use.accounted_of_reachable (zero_le_one.trans hcapacity) hrate.le hs
  refine ⟨h.accounts.within, fun now _ between s' hbetween t ht => ?_⟩
  refine Use.Idle.tryTake_iff (Use.Idle.runs hrate.le hbetween ?_) hcapacity hrate h.rate_eq ht
  exact {
    capacity_eq := h.capacity_eq
    rate_eq := h.rate_eq
    later := le_rfl
    tokens_eq := by
      change min s.bucket.capacity _ = min capacity (min s.bucket.capacity _ + (now - now) * rate)
      rw [h.capacity_eq, sub_self, zero_mul, add_zero, ← min_assoc, min_self] }

/-- Three previews at once empty a bucket of three, and five seconds later there is one more. -/
theorem limits_rate_thumbs :
    let s := [0, 0, 0].foldl (fun s now => s.call (.tryTake now))
      ({ bucket := .new 3 (1 / 5) 0 } : Use ℚ)
    Lib.TokenBucket.Within 3 (1 / 5) s.takes ∧ s.takes = [0, 0, 0] ∧
      ((s.call (.waitSeconds 0)).bucket.tryTake 5).1 = true := by
  intro s
  have hs : (uses (3 : ℚ) (1 / 5)).Reachable s :=
    .step (.tryTake 0) (.step (.tryTake 0) (.step (.tryTake 0) (.init ⟨0, rfl⟩)
      ⟨le_rfl, rfl⟩) ⟨by decide +kernel, rfl⟩) ⟨by decide +kernel, rfl⟩
  have h := limits_rate (by decide +kernel) (by decide +kernel) hs
  have hwait : (s.call (.waitSeconds 0)).bucket.last ≤ 5 := show (0 : ℚ) ≤ 5 by decide +kernel
  exact ⟨h.1, by decide +kernel,
    (h.2 0 (by decide +kernel) [] _ (.nil _) 5 hwait).2 (by decide +kernel)⟩

end Decibell.RateLimit
