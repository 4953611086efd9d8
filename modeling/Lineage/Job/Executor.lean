import Lineage.Job.Queue

/-!
# Executing jobs

An `Executor σ` has handlers that act on a state `σ`. A handler is registered under a pattern: the
name of a job kind, a prefix followed by `.*`, or `*` for any kind.

* `Executor.handler?`: the handler of a job kind.
* `Executor.execute`: attempt a job and write what became of it to the queue.
* `Executor.runNext`: claim a job and execute it.
* `Executor.work`: run a number of jobs, waiting for each to come due.
-/

namespace Lineage

/-- What a handler reports. -/
inductive JobResult
  | success
  | failure (error : String)
  deriving DecidableEq, Repr

/-- The work behind a job, which may change a state. -/
abbrev Handler (σ : Type) := Job → σ → JobResult × σ

/-- Handlers by pattern, and the operations the queue refuses. -/
structure Executor (σ : Type) where
  /-- No pattern stands twice. -/
  handlers : List (String × Handler σ) := []
  gate : QueueGate := {}

/-- Why an execution is no success. -/
inductive ExecutionError
  /-- The handler reported a failure, which the queue recorded. -/
  | handler (error : String)
  /-- The queue did not record what became of the job. -/
  | persist (cause : QueueError)
  deriving DecidableEq, Repr

/-- The failure in words. -/
def ExecutionError.message : ExecutionError → String
  | handler error => "job handler failed: " ++ error
  | persist cause => "failed to store job state: " ++ cause.message

/-- A job after an execution, and how the execution ended. -/
structure Execution where
  job : Job
  outcome : Except ExecutionError Unit

/-- What an executor has done. -/
structure WorkStats where
  processed : Nat := 0
  succeeded : Nat := 0
  failed : Nat := 0
  deadLettered : Nat := 0
  deriving DecidableEq, Repr

/-- The counts after one more execution. -/
def WorkStats.add (s : WorkStats) (x : Execution) : WorkStats :=
  match x.outcome, x.job.status with
  | .ok (), _ => { s with processed := s.processed + 1, succeeded := s.succeeded + 1 }
  | .error _, .deadLettered _ _ =>
    { s with
      processed := s.processed + 1, failed := s.failed + 1, deadLettered := s.deadLettered + 1 }
  | .error _, _ => { s with processed := s.processed + 1, failed := s.failed + 1 }

namespace Executor

variable {σ : Type}

/-! ## Handlers -/

/-- Register a handler; it takes the place of an older one of the same pattern. -/
def register (x : Executor σ) (pattern : String) (h : Handler σ) : Executor σ :=
  let handlers :=
    if x.handlers.any fun e => e.1 == pattern then
      x.handlers.map fun e => if e.1 == pattern then (pattern, h) else e
    else x.handlers ++ [(pattern, h)]
  { x with handlers }

/-- The handler registered under a pattern. -/
def registered? (x : Executor σ) (pattern : String) : Option (Handler σ) :=
  (x.handlers.find? fun e => e.1 == pattern).map (·.2)

/-- What stands before the `.*` at the end of a pattern. -/
def stem? (pattern : String) : Option (List Char) :=
  match pattern.toList.reverse with
  | '*' :: '.' :: stem => some stem.reverse
  | _ => none

/-- Whether a pattern is a prefix of a name followed by `.*`. -/
def coversPrefix (pattern name : String) : Bool :=
  (stem? pattern).any fun stem => stem.isPrefixOf name.toList

/-- The handler of a job kind: the one registered under its name, else the first one whose prefix
fits, else the one for any kind. -/
def handler? (x : Executor σ) (kind : JobKind) : Option (Handler σ) :=
  match x.registered? kind.typeName with
  | some h => some h
  | none =>
    match x.handlers.find? fun e => coversPrefix e.1 kind.typeName with
    | some e => some e.2
    | none => x.registered? "*"

/-! ## Execution -/

/-- Call the handler of a job. A job without a handler fails. -/
def handle (x : Executor σ) (job : Job) (world : σ) : JobResult × σ :=
  match x.handler? job.kind with
  | some h => h job world
  | none => (.failure ("no handler for job kind " ++ job.kind.typeName), world)

/-- Record in the queue that an attempt succeeded. -/
def recordSuccess (x : Executor σ) (now : Instant) (job : Job) (q : JobQueue) :
    Execution × JobQueue :=
  let job := job.complete now
  match x.gate.update q job with
  | .ok q => (⟨job, .ok ()⟩, q)
  | .error e => (⟨job, .error (.persist e)⟩, q)

/-- Record in the queue that an attempt failed. -/
def recordFailure (x : Executor σ) (now : Instant) (job : Job) (error : String) (q : JobQueue) :
    Except Abort Execution × JobQueue :=
  match job.fail error now with
  | .error a => (.error a, q)
  | .ok job =>
    let stored :=
      match job.status with
      | .deadLettered reason _ => x.gate.deadLetter q job reason now
      | _ => x.gate.update q job
    match stored with
    | .ok q => (.ok ⟨job, .error (.handler error)⟩, q)
    | .error e => (.ok ⟨job, .error (.persist e)⟩, q)

/-- Attempt a started job and record what became of it. -/
def execute (x : Executor σ) (now : Instant) (job : Job) (q : JobQueue) (world : σ) :
    Except Abort Execution × JobQueue × σ :=
  match x.handle job world with
  | (.success, world) =>
    let (execution, q) := x.recordSuccess now job q
    (.ok execution, q, world)
  | (.failure error, world) =>
    let (execution, q) := x.recordFailure now job error q
    (execution, q, world)

/-- Why a run ended without an answer. -/
inductive RunError
  | aborted (cause : Abort)
  | queue (cause : QueueError)
  deriving DecidableEq, Repr

/-- Claim a job and execute it. The answer is the job as it is afterwards, or `none` if no job is
ready. A failure of the handler is recorded on the job; one of the queue is the answer. -/
def runNext (x : Executor σ) (now : Instant) (q : JobQueue) (world : σ) :
    Except RunError (Option Job) × JobQueue × σ :=
  match x.gate.claim q now with
  | .error e => (.error (.queue e), q, world)
  | .ok (none, q) => (.ok none, q, world)
  | .ok (some job, q) =>
    match x.execute now job q world with
    | (.error a, q, world) => (.error (.aborted a), q, world)
    | (.ok ⟨_, .error (.persist e)⟩, q, world) => (.error (.queue e), q, world)
    | (.ok ⟨job, _⟩, q, world) => (.ok (some job), q, world)

/-- Run `count` jobs one after the other, waiting for each to come due. After each of them the clock
has moved on by a `tick`, so that of two jobs the one that ran first also failed first. The work
ends early when no job waits, when claims are refused, or when an execution is aborted. -/
def work (x : Executor σ) (tick : Instant → Instant) :
    (count : Nat) → Instant → JobQueue → σ → WorkStats → WorkStats × Instant × JobQueue × σ
  | 0, now, q, world, stats => (stats, now, q, world)
  | count + 1, now, q, world, stats =>
    match q.nextReady? now with
    | none => (stats, now, q, world)
    | some now =>
      match x.gate.claim q now with
      | .error _ | .ok (none, _) => (stats, now, q, world)
      | .ok (some job, q) =>
        match x.execute now job q world with
        | (.error _, q, world) => (stats, now, q, world)
        | (.ok execution, q, world) => work x tick count (tick now) q world (stats.add execution)

end Executor

end Lineage
