import Teller.Moment

/-! How long a failed task waits before it is tried again. -/
namespace Teller

inductive Backoff where
  | fixed (delay : Span)
  | linear (base each : Int)
  | standard
  deriving DecidableEq

namespace Backoff

def cap : Nat := 1000

def capped (retried : UInt32) : Nat := min retried.toNat cap

def leastSeconds (retried : UInt32) : Nat := (capped retried).pow 4 + 15

def jitterBound (retried : UInt32) : Nat := 30 * (capped retried + 1)

def delay (b : Backoff) (retried : UInt32) (draw : Nat) : Span :=
  match b with
  | fixed delay => delay
  | linear base each => (Span.ofMs? (base + each * retried.toNat)).getD .zero
  | standard =>
      (Span.ofMs? (1000 * (leastSeconds retried + draw % jitterBound retried) : Nat)).getD .zero

end Backoff
end Teller
