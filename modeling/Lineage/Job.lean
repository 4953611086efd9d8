import Lineage.Abort
import Lineage.Ident
import Lineage.Json
import Lineage.Time
import Lineage.Uuid

/-!
# Jobs

A `Job` is a piece of work that waits in a queue. It is attempted until an attempt succeeds or its
`RetryPolicy` allows no more.

* `RetryPolicy.delayAfter`: how long to wait after a failed attempt.
* `Job.start`, `Job.complete`, `Job.fail`: the steps of an attempt, each at an instant.
* `Job.isDue`: whether the instant for which a job is scheduled has come.
-/

namespace Lineage

/-- What a job does. -/
inductive JobKind
  /-- Purge an archived node; the route names its hierarchy. -/
  | archivePurge (route : String)
  | custom (kind : String)
  deriving DecidableEq, Repr, Inhabited

namespace JobKind

/-- The route of the purges of a hierarchy. -/
def purgeRoute (hierarchy : String) : String := hierarchy ++ ".purge"

/-- The purge of a node of a hierarchy. -/
def purgeOf (hierarchy : String) : JobKind := archivePurge (purgeRoute hierarchy)

/-- The name by which a handler is chosen. -/
def typeName : JobKind → String
  | archivePurge route => route
  | custom kind => kind

end JobKind

/-- Where a job stands. -/
inductive JobStatus
  | pending
  | running
  | completed
  /-- Waiting for another attempt. -/
  | failed (error : String) (attempt : UInt32)
  /-- Given up. -/
  | deadLettered (error : String) (attempts : UInt32)
  deriving DecidableEq, Repr, Inhabited

namespace JobStatus

/-- Whether the job failed and will be attempted again. -/
def isRetriable : JobStatus → Bool
  | failed _ _ => true
  | _ => false

/-- Whether the job waits to be claimed. -/
def isWaiting : JobStatus → Bool
  | pending => true
  | failed _ _ => true
  | _ => false

/-- Whether two jobs stand at the same stage, whatever their errors and attempts. -/
def sameStage : JobStatus → JobStatus → Bool
  | pending, pending => true
  | running, running => true
  | completed, completed => true
  | failed _ _, failed _ _ => true
  | deadLettered _ _, deadLettered _ _ => true
  | _, _ => false

end JobStatus

/-- How delays grow from attempt to attempt. -/
inductive Backoff
  | fixed
  /-- Every delay is twice the one before. -/
  | exponential
  deriving DecidableEq, Repr, Inhabited

/-- How often and when a failed job is attempted again. -/
structure RetryPolicy where
  /-- The number of attempts, the first one included. -/
  maxAttempts : UInt32 := 5
  baseDelay : Duration := .ofSeconds 30
  maxDelay : Duration := .ofSeconds 3600
  backoff : Backoff := .exponential
  deriving DecidableEq, Repr, Inhabited

namespace RetryPolicy

/-- A single attempt. -/
def noRetry : RetryPolicy := { maxAttempts := 1 }

/-- The same delay after every attempt. -/
def fixed (maxAttempts : UInt32) (delay : Duration) : RetryPolicy :=
  ⟨maxAttempts, delay, delay, .fixed⟩

/-- The wait after an attempt, counted from one. It doubles at most 31 times and stays within the
longest delay. -/
def delayAfter (p : RetryPolicy) (attempt : UInt32) : Duration :=
  if attempt = 0 then .zero
  else
    match p.backoff with
    | .fixed => p.baseDelay
    | .exponential =>
      match p.baseDelay.times? (1 <<< min (attempt.toNat - 1) 31) with
      | some delay => delay.min p.maxDelay
      | none => p.maxDelay

/-- Whether another attempt follows a failed one. -/
def allowsRetry (p : RetryPolicy) (attempt : UInt32) : Bool := attempt < p.maxAttempts

end RetryPolicy

/-- A piece of work in a queue. -/
structure Job where
  id : Uuid
  kind : JobKind
  payload : Json
  status : JobStatus := .pending
  policy : RetryPolicy := {}
  /-- The number of attempts begun. -/
  attempt : UInt32 := 0
  created : Instant
  updated : Instant
  /-- The job is not claimed before this instant. -/
  scheduled : Option Instant := none
  deriving Inhabited

namespace Job

/-- A job created at an instant. -/
def new (id : Uuid) (kind : JobKind) (payload : Json) (now : Instant) : Job :=
  { id, kind, payload, created := now, updated := now }

/-- Whether the instant for which the job is scheduled has come. -/
def isDue (j : Job) (now : Instant) : Bool := j.scheduled.all fun t => t ≤ now

/-- Begin an attempt. -/
def start (j : Job) (now : Instant) : Job :=
  { j with status := .running, attempt := j.attempt + 1, updated := now }

/-- The attempt succeeded. -/
def complete (j : Job) (now : Instant) : Job := { j with status := .completed, updated := now }

/-- The attempt failed: schedule the next one, or give up if there is none. A delay too long to be
added to an instant counts as none at all. -/
def fail (j : Job) (error : String) (now : Instant) : Except Abort Job :=
  if j.policy.allowsRetry j.attempt then
    match now.add? (((j.policy.delayAfter j.attempt).step?).getD 0) with
    | some t =>
      .ok { j with status := .failed error j.attempt, updated := now, scheduled := some t }
    | none => .error .pastLastInstant
  else .ok { j with status := .deadLettered error j.attempt, updated := now }

end Job

/-- A job that was given up, with the reason. -/
structure DeadLetter where
  job : Job
  since : Instant
  reason : String
  deriving Inhabited

end Lineage
