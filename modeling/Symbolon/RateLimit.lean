import Mathlib.Order.Lattice
import Mathlib.Order.Defs.LinearOrder

/-!
# The rate limiter

`src/rate_limit.rs`: a token bucket kept as the time at which the next event would be on
schedule. Time is abstract, as in the source: instants are ordered, and a duration can be
added to one. The clock is a function pointer in the source; here its reading is an
argument.
-/

namespace Symbolon

/-- The largest count of the limiter, `u64::MAX`. -/
def u64Max : ℕ := 0xFFFFFFFFFFFFFFFF

/-- A token bucket over instants `T` and durations `D`. -/
structure TokenBucket (T D : Type) where
  /-- One event per interval, in the long run. -/
  refillInterval : D
  /-- How far ahead of schedule an event may be. -/
  burstTolerance : D
  /-- When the next event is on schedule. -/
  tat : T
  /-- The events refused since the last one that was admitted. -/
  suppressed : ℕ

namespace TokenBucket

variable {T D : Type}

/-- A full bucket. -/
def new (refillInterval burstTolerance : D) (now : T) : TokenBucket T D :=
  ⟨refillInterval, burstTolerance, now, 0⟩

/-- Try to admit one event. `some n` means that it is admitted and that `n` were refused
since the last one; `none` that it is refused. -/
def tryAcquire [LinearOrder T] [HAdd T D T] (b : TokenBucket T D) (now : T) :
    TokenBucket T D × Option ℕ :=
  if b.tat ≤ now + b.burstTolerance then
    ({ b with tat := max b.tat now + b.refillInterval, suppressed := 0 }, some b.suppressed)
  else ({ b with suppressed := min (b.suppressed + 1) u64Max }, none)

end TokenBucket

end Symbolon
