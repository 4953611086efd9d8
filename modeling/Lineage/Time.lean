/-!
# Durations and instants

A `Duration` is a nonnegative span with nanosecond precision of less than 2⁶⁴ seconds. An
`Instant` is a number of nanoseconds since the start of 1970, perhaps in a leap second. Instants end
with the year 262142; an addition that leads past the end has no result.
-/

namespace Lineage

/-- Nanoseconds in a second. -/
def nanosPerSecond : Nat := 1000000000

/-- A span of time. -/
structure Duration where
  nanos : Nat
  bounded : nanos < UInt64.size * nanosPerSecond
  deriving DecidableEq, Repr

namespace Duration

/-- The span of a number of nanoseconds, if it is below 2⁶⁴ seconds. -/
def ofNanos? (n : Nat) : Option Duration :=
  if h : n < UInt64.size * nanosPerSecond then some ⟨n, h⟩ else none

/-- The span of a number of whole seconds. -/
def ofSeconds (s : UInt64) : Duration :=
  ⟨s.toNat * nanosPerSecond, Nat.mul_lt_mul_of_pos_right s.toNat_lt_size (by decide)⟩

/-- No time at all. -/
def zero : Duration := ⟨0, by decide⟩

instance : Inhabited Duration := ⟨zero⟩

/-- The whole seconds. -/
def seconds (d : Duration) : Nat := d.nanos / nanosPerSecond

/-- The nanoseconds beyond the whole seconds. -/
def subsecond (d : Duration) : Nat := d.nanos % nanosPerSecond

/-- A multiple, if it is below 2⁶⁴ seconds. -/
def times? (d : Duration) (n : Nat) : Option Duration := ofNanos? (d.nanos * n)

/-- The shorter of two spans. -/
def min (d e : Duration) : Duration := if d.nanos ≤ e.nanos then d else e

/-- The longest span that can be added to an instant: 2⁶³ - 1 milliseconds. -/
def longestStep : Nat := 9223372036854775807 * 1000000

/-- The nanoseconds of a span short enough to be added to an instant. -/
def step? (d : Duration) : Option Nat := if d.nanos ≤ longestStep then some d.nanos else none

end Duration

/-- A point in time. A leap second, written as second 60, has the nanoseconds of the first second of
the next minute; `leap` tells it from that. -/
structure Instant where
  nanos : Int
  leap : Bool := false
  deriving DecidableEq, Repr, Inhabited

namespace Instant

/-- The last instant, the end of the year 262142. -/
def last : Int := 8210266876799999999999

/-- The first instant, the start of the year -262143. -/
def first : Int := -8334601228800000000000

/-- The nanoseconds on a clock that shows second 59 again for a leap second. -/
def base (t : Instant) : Int := if t.leap then t.nanos - nanosPerSecond else t.nanos

/-- The second that such a clock shows. -/
def second (t : Instant) : Int := t.base / nanosPerSecond

/-- The nanoseconds since that second began. In a leap second they are a full second and more. -/
def fraction (t : Instant) : Int := t.nanos - t.second * nanosPerSecond

/-- Instants go by their seconds, then by the nanoseconds since: a leap second lies between the
second before it and the one after it. -/
instance : LE Instant :=
  ⟨fun s t => s.second < t.second ∨ s.second = t.second ∧ s.fraction ≤ t.fraction⟩

instance : LT Instant :=
  ⟨fun s t => s.second < t.second ∨ s.second = t.second ∧ s.fraction < t.fraction⟩

instance (s t : Instant) : Decidable (s ≤ t) :=
  inferInstanceAs (Decidable (s.second < t.second ∨ s.second = t.second ∧ s.fraction ≤ t.fraction))

instance (s t : Instant) : Decidable (s < t) :=
  inferInstanceAs (Decidable (s.second < t.second ∨ s.second = t.second ∧ s.fraction < t.fraction))

/-- The instant `n` nanoseconds later, as if there was no leap second but the one that `t` may lie
in. -/
def after (t : Instant) (n : Nat) : Instant :=
  if t.leap ∧ t.fraction + n < 2 * nanosPerSecond then ⟨t.nanos + n, true⟩
  else ⟨t.base + n, false⟩

/-- The instant `n` nanoseconds later, or `none` beyond the last instant. -/
def add? (t : Instant) (n : Nat) : Option Instant :=
  if t.base + n ≤ last then some (t.after n) else none

/-- The instant of a number of milliseconds since the start of 1970. -/
def ofMillis (ms : Int) : Instant := ⟨ms * 1000000, false⟩

/-- The whole milliseconds since the start of 1970, rounded down. -/
def millis (t : Instant) : Int := t.nanos.fdiv 1000000

end Instant

end Lineage
