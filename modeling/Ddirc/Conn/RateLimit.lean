import Ddirc.Lib.Round

/-! # Flood protection

`conn/ratelimit.rs`. An instant is a number of nanoseconds. What tokens are computed with rounds its
results: `f64` does in the code, and `id` is exact. -/

namespace Ddirc.Conn

abbrev Instant := Nat

def f64 : ℚ → ℚ := roundTo 53

structure TokenBucket where
  capacity : ℚ
  tokens : ℚ
  refillPerSec : ℚ
  lastRefill : Instant
  deriving Repr, DecidableEq

namespace TokenBucket

def init (capacity : Nat) (refillPerSec : ℚ) (now : Instant) : TokenBucket :=
  { capacity, tokens := capacity, refillPerSec, lastRefill := now }

section
variable (fl : ℚ → ℚ)

/-- `Duration::as_secs_f64` of so many nanoseconds. -/
def seconds (n : Nat) : ℚ := fl (fl (n / 10 ^ 9 : Nat) + fl ((n % 10 ^ 9 : Nat) / 10 ^ 9))

def refill (b : TokenBucket) (now : Instant) : TokenBucket :=
  -- `saturating_duration_since`: a clock that goes back adds nothing.
  let elapsed := seconds fl (now - b.lastRefill)
  if 0 < elapsed then
    { b with
      tokens := min (fl (b.tokens + fl (elapsed * b.refillPerSec))) b.capacity
      lastRefill := now }
  else b

def tryConsume (b : TokenBucket) (now : Instant) : TokenBucket × Bool :=
  let b := b.refill fl now
  if 1 ≤ b.tokens then ({ b with tokens := fl (b.tokens - 1) }, true) else (b, false)

/-- The time to wait, in seconds. -/
def timeUntilAvailable (b : TokenBucket) (now : Instant) : TokenBucket × ℚ :=
  let b := b.refill fl now
  if 1 ≤ b.tokens then (b, 0) else (b, fl (fl (1 - b.tokens) / b.refillPerSec))

end

/-- Whether `try_consume` finds a token. -/
def available (b : TokenBucket) (now : Instant) : Bool := 1 ≤ (b.refill f64 now).tokens

end TokenBucket

structure SendLimiter where
  bucket : TokenBucket
  deriving Repr, DecidableEq

namespace SendLimiter

def init (now : Instant) : SendLimiter := ⟨.init 5 (1 / 2) now⟩

/-- How long the caller must wait before sending, in nanoseconds; zero means send now. -/
def acquire (l : SendLimiter) (now : Instant) : SendLimiter × Nat :=
  let (bucket, ok) := l.bucket.tryConsume f64 now
  if ok then (⟨bucket⟩, 0)
  else
    let (bucket, wait) := bucket.timeUntilAvailable f64 now
    -- `Duration::from_secs_f64` rounds to whole nanoseconds
    (⟨bucket⟩, (roundEven (wait * 10 ^ 9)).toNat)

end SendLimiter

/-- Caps how many incoming messages are processed, counting the rest. -/
structure ReceiveLimiter where
  bucket : TokenBucket
  dropped : Nat
  deriving Repr, DecidableEq

namespace ReceiveLimiter

def init (now : Instant) : ReceiveLimiter := ⟨.init 200 50 now, 0⟩

def tryAdmit (l : ReceiveLimiter) (now : Instant) : ReceiveLimiter × Bool :=
  let (bucket, ok) := l.bucket.tryConsume f64 now
  -- the counter is a `u64` that saturates
  if ok then (⟨bucket, l.dropped⟩, true) else (⟨bucket, min (l.dropped + 1) (2 ^ 64 - 1)⟩, false)

theorem tryAdmit_bucket (l : ReceiveLimiter) (now : Instant) :
    (l.tryAdmit now).1.bucket = (l.bucket.tryConsume f64 now).1 := by
  simp only [tryAdmit]
  split <;> rfl

theorem tryAdmit_snd (l : ReceiveLimiter) (now : Instant) :
    (l.tryAdmit now).2 = l.bucket.available now := by
  simp only [tryAdmit, TokenBucket.tryConsume, TokenBucket.available]
  split <;> simp_all

end ReceiveLimiter

end Ddirc.Conn
