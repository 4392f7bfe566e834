import Mathlib.Algebra.Order.Field.Basic
import Mathlib.Data.Nat.Cast.Order.Basic
import Mathlib.Tactic.Linarith

/-!
# Token buckets

A bucket is filled at a rate, never above a burst, and everything that starts takes a token out
of it. `Accounts` relates a bucket to the times at which its tokens were taken; filling and taking
keep it, and it bounds how much starts in any window of time (`Within`).
-/

namespace Lib

open List

/-- A bucket, and when it was filled last. -/
structure TokenBucket (K : Type) where
  tokens : K
  last : K

namespace TokenBucket

variable {K : Type} [Field K] [LinearOrder K] [IsStrictOrderedRing K] {burst rate now : K}
  {starts : List K} {b : TokenBucket K}

/-- Fills a bucket for the time since it was filled last. -/
def refill (burst rate now : K) (b : TokenBucket K) : TokenBucket K :=
  ⟨min burst (b.tokens + (now - b.last) * rate), now⟩

/-- Takes a token. -/
def take (b : TokenBucket K) : TokenBucket K := ⟨b.tokens - 1, b.last⟩

/-- How many of the times lie in a window. -/
def startsIn (starts : List K) (a c : K) : Nat := starts.countP fun t => a ≤ t ∧ t ≤ c

/-- No window sees more starts than the burst and its rate's allowance. -/
def Within (burst rate : K) (starts : List K) : Prop :=
  ∀ a c, a ≤ c → (startsIn starts a c : K) ≤ burst + rate * (c - a)

/-- The tokens of a bucket and the starts that took them. -/
structure Accounts (burst rate : K) (starts : List K) (b : TokenBucket K) : Prop where
  within : Within burst rate starts
  past : ∀ t ∈ starts, t ≤ b.last
  nonneg : 0 ≤ b.tokens
  /-- Up to now, every window left the tokens there are. -/
  recent : ∀ a ≤ b.last, (startsIn starts a b.last : K) + b.tokens ≤ burst + rate * (b.last - a)

theorem within_nil (hburst : 0 ≤ burst) (hrate : 0 ≤ rate) : Within burst rate [] := by
  intro a c hac
  have : 0 ≤ rate * (c - a) := mul_nonneg hrate (sub_nonneg.2 hac)
  simp only [startsIn, countP_nil, Nat.cast_zero]
  linarith

/-- A full bucket of which nothing was taken yet. -/
theorem accounts_full (hburst : 0 ≤ burst) (hrate : 0 ≤ rate) :
    Accounts burst rate [] ⟨burst, now⟩ where
  within := within_nil hburst hrate
  past := nofun
  nonneg := hburst
  recent a ha := by
    have : 0 ≤ rate * (now - a) := mul_nonneg hrate (sub_nonneg.2 ha)
    simp only [startsIn, countP_nil, Nat.cast_zero]
    linarith

omit [Field K] [IsStrictOrderedRing K] in
/-- All that starts is past: later ends add nothing. -/
theorem startsIn_of_past {a c e : K} (hpast : ∀ t ∈ starts, t ≤ c) (hce : c ≤ e) :
    startsIn starts a e = startsIn starts a c := by
  refine countP_congr fun t ht => ?_
  have htc := hpast t ht
  simp [htc, htc.trans hce]

omit [Field K] [IsStrictOrderedRing K] in
theorem startsIn_of_lt {a c : K} (hpast : ∀ t ∈ starts, t < a) : startsIn starts a c = 0 := by
  refine countP_eq_zero.2 fun t ht => ?_
  simp [hpast t ht]

theorem Accounts.refill (h : Accounts burst rate starts b) (hburst : 0 ≤ burst) (hrate : 0 ≤ rate)
    (hnow : b.last ≤ now) : Accounts burst rate starts (b.refill burst rate now) where
  within := h.within
  past t ht := (h.past t ht).trans hnow
  nonneg := le_min hburst
    (add_nonneg h.nonneg (mul_nonneg (sub_nonneg.2 hnow) hrate))
  recent a ha := by
    change (startsIn starts a now : K) + min burst (b.tokens + (now - b.last) * rate) ≤
      burst + rate * (now - a)
    rcases le_or_gt a b.last with hold | hnew
    · -- the window saw the bucket before it was filled
      have hbefore := h.recent a hold
      have hadd := min_le_right burst (b.tokens + (now - b.last) * rate)
      rw [startsIn_of_past h.past hnow]
      linarith
    · -- nothing started in the window yet
      have hfull := min_le_left burst (b.tokens + (now - b.last) * rate)
      have : 0 ≤ rate * (now - a) := mul_nonneg hrate (sub_nonneg.2 ha)
      rw [startsIn_of_lt fun t ht => (h.past t ht).trans_lt hnew, Nat.cast_zero]
      linarith

omit [Field K] [IsStrictOrderedRing K] in
/-- A start now adds one to the windows that see now. -/
theorem startsIn_snoc {a c now : K} :
    startsIn (starts ++ [now]) a c = startsIn starts a c + if a ≤ now ∧ now ≤ c then 1 else 0 := by
  simp [startsIn, countP_append, countP_cons]

theorem Accounts.take (h : Accounts burst rate starts b) (hrate : 0 ≤ rate)
    (htoken : 1 ≤ b.tokens) : Accounts burst rate (starts ++ [b.last]) b.take where
  within a c hac := by
    rw [startsIn_snoc]
    split
    · rename_i hnow
      have hbefore := h.recent a hnow.1
      have : rate * (b.last - a) ≤ rate * (c - a) :=
        mul_le_mul_of_nonneg_left (sub_le_sub_right hnow.2 a) hrate
      rw [startsIn_of_past h.past hnow.2]
      push_cast
      linarith
    · simpa using h.within a c hac
  past t ht := by
    rcases mem_append.1 ht with ht | ht
    · exact h.past t ht
    · exact (mem_singleton.1 ht).le
  nonneg := sub_nonneg.2 htoken
  recent a ha := by
    have hbefore := h.recent a ha
    change (startsIn (starts ++ [b.last]) a b.last : K) + (b.tokens - 1) ≤ _
    rw [startsIn_snoc, if_pos ⟨ha, le_rfl⟩]
    push_cast
    change _ ≤ burst + rate * (b.last - a)
    linarith

end TokenBucket
end Lib
