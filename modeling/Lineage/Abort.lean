/-!
# Computations that cannot go on

An `Abort` ends an operation in the middle, without an answer. One that strikes inside a
transaction leaves the store locked.
-/

namespace Lineage

/-- Why a computation could not go on. -/
inductive Abort
  /-- A sum of an instant and a span lies beyond the last instant. -/
  | pastLastInstant
  /-- The life time of cached views exceeds a thousand years. -/
  | lifeTooLong
  deriving DecidableEq, Repr

/-- The cause in words. -/
def Abort.message : Abort → String
  | pastLastInstant => "\x60DateTime + TimeDelta\x60 overflowed"
  | lifeTooLong => "time_to_live is longer than 1000 years"

end Lineage
