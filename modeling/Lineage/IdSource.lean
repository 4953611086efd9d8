/-!
# Where new ids come from

A node that is registered without an id gets one from an `IdSource`.

* `Sequence` counts up and wraps at the largest 64-bit integer.
* `Snowflake` puts the milliseconds since the start of 2024 above 10 bits of worker number and 12
  bits of sequence number. Its ids ascend strictly, and generators of different workers never meet.

A snowflake reads a clock, possibly more than once: the readings are a list, and what is left of it
comes back with the id.
-/

namespace Lineage

/-- A counter. -/
structure Sequence where
  next : Int64 := 1
  deriving DecidableEq, Repr, Inhabited

/-- The counter's value, and the counter after it. -/
def Sequence.draw (s : Sequence) : Int64 × Sequence := (s.next, ⟨s.next + 1⟩)

/-- A generator of ids that carry the time. -/
structure Snowflake where
  /-- The low ten bits of the worker number. -/
  worker : Fin 1024
  /-- The millisecond of the last id, 0 before the first. -/
  last : Int := 0
  /-- The number of ids drawn before the last one in its millisecond. -/
  sequence : Fin 4096 := 0
  deriving DecidableEq, Repr, Inhabited

namespace Snowflake

/-- The start of 2024, in milliseconds since the start of 1970. -/
def epoch : Int := 1704067200000

/-- The generator of a worker. -/
def ofWorker (worker : UInt16) : Snowflake := { worker := Fin.ofNat 1024 worker.toNat }

/-- The id of a millisecond, a worker and a sequence number. -/
def compose (millis : Int) (worker : Fin 1024) (sequence : Fin 4096) : Int64 :=
  (Int64.ofInt (millis - epoch) <<< 22) ||| (Int64.ofNat worker.val <<< 12) |||
    Int64.ofNat sequence.val

/-- The first reading past `last`, and the readings after it. -/
def waitPast (last : Int) : List Int → Option (Int × List Int)
  | [] => none
  | reading :: rest => if last < reading then some (reading, rest) else waitPast last rest

/-- The generator after it drew an id in a millisecond. -/
def step (s : Snowflake) (millis : Int) (sequence : Fin 4096) : Int64 × Snowflake :=
  (compose millis s.worker sequence, { s with last := millis, sequence })

/-- The next id. A clock that runs behind the last id counts as standing still. Once the sequence
numbers of a millisecond are used up, the clock is read until it moves on. Without enough readings
there is no id yet. -/
def draw (s : Snowflake) : (readings : List Int) → Option ((Int64 × Snowflake) × List Int)
  | [] => none
  | reading :: rest =>
    if s.last < reading then some (s.step reading 0, rest)
    else if s.sequence + 1 = 0 then
      (waitPast s.last rest).map fun (later, rest) => (s.step later 0, rest)
    else some (s.step s.last (s.sequence + 1), rest)

end Snowflake

/-- Where the ids of nodes registered without one come from. -/
inductive IdSource
  | sequence (s : Sequence)
  | snowflake (s : Snowflake)
  deriving DecidableEq, Repr, Inhabited

/-- The next id, drawn when the clock shows `millis` and moves on when a snowflake has to wait. -/
def IdSource.draw (source : IdSource) (millis : Int) : Int64 × IdSource :=
  match source with
  | sequence s => let (id, s) := s.draw; (id, sequence s)
  | snowflake s =>
    match s.draw [millis, s.last + 1] with
    | some ((id, s), _) => (id, snowflake s)
    | none => (0, snowflake s)

end Lineage
