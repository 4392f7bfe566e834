import Mathlib.Tactic.Common

/-!
# Buckets of tokens

A community makes what comes too fast wait, or refuses it: what it does takes a token from a bucket,
which is refilled at a rate and never above its capacity. Every call of a bucket reads the clock,
and refills it for the time that has gone by.

The numbers are any with the operations the code uses.
-/

namespace Decibell
namespace RateLimit

structure TokenBucket (K : Type) where
  capacity : K
  refillPerSec : K
  tokens : K
  last : K
  deriving DecidableEq

namespace TokenBucket

variable {K : Type} [Zero K] [One K] [Add K] [Sub K] [Mul K] [Div K] [Min K]
  [LT K] [DecidableLT K] [LE K] [DecidableLE K]

/-- A new bucket is full. -/
def new (capacity refillPerSec now : K) : TokenBucket K := ⟨capacity, refillPerSec, capacity, now⟩

def refill (now : K) (b : TokenBucket K) : TokenBucket K :=
  { b with last := now, tokens := min b.capacity (b.tokens + (now - b.last) * b.refillPerSec) }

/-- Takes a token, if there is one. -/
def tryTake (now : K) (b : TokenBucket K) : Bool × TokenBucket K :=
  let b := b.refill now
  if b.tokens < 1 then (false, b) else (true, { b with tokens := b.tokens - 1 })

/-- The seconds until there is a token to take. -/
def waitSeconds (now : K) (b : TokenBucket K) : K × TokenBucket K :=
  let b := b.refill now
  (if 1 ≤ b.tokens then 0 else (1 - b.tokens) / b.refillPerSec, b)

/-- Nothing was taken lately. -/
def full (now : K) (b : TokenBucket K) : Bool × TokenBucket K :=
  let b := b.refill now
  (b.capacity ≤ b.tokens, b)

end TokenBucket
end RateLimit
end Decibell
