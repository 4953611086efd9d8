import Lineage.Job
import Lineage.Table

/-!
# The job queue

A `JobQueue` holds live jobs and dead letters, each by job id. Every operation takes the instant at
which it happens.

* `enqueue`, `update`, `find?`: write and read live jobs.
* `claim`: start the waiting job that was due first.
* `deadLetter`, `revive`, `discard`: give a job up, take it back, forget it.
* `QueueGate`: a queue that refuses some operations for the time being.
-/

namespace Lineage

/-- Why the queue did not do what was asked. -/
inductive QueueError
  | notFound (id : Uuid)
  | alreadyExists (id : Uuid)
  | storage (detail : String)
  deriving DecidableEq, Repr

/-- The failure in words. -/
def QueueError.message : QueueError → String
  | notFound id => "job not found: " ++ id.text
  | alreadyExists id => "job already exists: " ++ id.text
  | storage detail => "storage error: " ++ detail

/-- How many jobs stand at which stage. -/
structure QueueStats where
  pending : Nat
  running : Nat
  completed : Nat
  failed : Nat
  deadLettered : Nat
  deriving DecidableEq, Repr

/-- Live jobs and dead letters. -/
structure JobQueue where
  jobs : Table Uuid Job := ∅
  deadLetters : Table Uuid DeadLetter := ∅
  deriving Inhabited

namespace JobQueue

/-- The live job with an id. -/
def find? (q : JobQueue) (id : Uuid) : Option Job := q.jobs.get? id

/-- Add a job, unless a live job has its id. -/
def enqueue (q : JobQueue) (job : Job) : Except QueueError JobQueue :=
  if q.jobs.contains job.id then .error (.alreadyExists job.id)
  else .ok { q with jobs := q.jobs.insert job.id job }

/-- Overwrite a live job. -/
def update (q : JobQueue) (job : Job) : Except QueueError JobQueue :=
  if q.jobs.contains job.id then .ok { q with jobs := q.jobs.insert job.id job }
  else .error (.notFound job.id)

/-! ## Claiming -/

/-- Whether a job can be claimed at an instant. -/
def isReady (now : Instant) (job : Job) : Bool := job.status.isWaiting && job.isDue now

/-- The instant from which a job waits to be claimed: its schedule, or else its creation. -/
def dueSince (job : Job) : Instant := job.scheduled.getD job.created

/-- Whether a job is claimed before another: it is due earlier, or was created earlier. -/
def precedes (a b : Job) : Bool :=
  dueSince a < dueSince b || (dueSince a == dueSince b && a.created < b.created)

/-- The job of a list that no other one precedes, the first of several. -/
def earliest? : List Job → Option Job
  | [] => none
  | job :: rest => some (rest.foldl (fun best j => if precedes j best then j else best) job)

/-- Start the ready job that is due first. Without a ready job nothing happens. -/
def claim (q : JobQueue) (now : Instant) : Option Job × JobQueue :=
  match earliest? (q.jobs.values.filter (isReady now)) with
  | some job =>
    let job := job.start now
    (some job, { q with jobs := q.jobs.insert job.id job })
  | none => (none, q)

/-- The first instant, `now` or later, at which there is a ready job. -/
def nextReady? (q : JobQueue) (now : Instant) : Option Instant :=
  let waiting := q.jobs.values.filter fun j => j.status.isWaiting
  match waiting.map fun j => if j.isDue now then now else j.scheduled.getD now with
  | [] => none
  | t :: rest => some (rest.foldl (fun a b => if b < a then b else a) t)

/-! ## Listing -/

/-- The first `limit` items in the order of an instant of theirs; items of one instant keep their
order. -/
def oldestFirst {α : Type} (instant : α → Instant) (limit : Nat) (items : List α) : List α :=
  (items.mergeSort fun a b => instant a ≤ instant b).take limit

/-- The oldest live jobs at the stage of a status, or at any. -/
def byStatus (q : JobQueue) (status : Option JobStatus) (limit : Nat) : List Job :=
  oldestFirst Job.created limit
    (q.jobs.values.filter fun j => status.all fun s => j.status.sameStage s)

/-- The oldest live jobs of a kind. -/
def byKind (q : JobQueue) (kind : JobKind) (limit : Nat) : List Job :=
  oldestFirst Job.created limit (q.jobs.values.filter fun j => j.kind == kind)

/-- The oldest dead letters. -/
def letters (q : JobQueue) (limit : Nat) : List DeadLetter :=
  oldestFirst DeadLetter.since limit q.deadLetters.values

/-- How many jobs stand at which stage; dead letters count as such. -/
def stats (q : JobQueue) : QueueStats :=
  let count (s : JobStatus) := q.jobs.values.countP fun j => j.status.sameStage s
  { pending := count .pending
    running := count .running
    completed := count .completed
    failed := count (.failed "" 0)
    deadLettered := count (.deadLettered "" 0) + q.deadLetters.size }

/-! ## Dead letters -/

/-- Give a job up. It need not be live. -/
def deadLetter (q : JobQueue) (job : Job) (reason : String) (now : Instant) : JobQueue :=
  let job := { job with status := .deadLettered reason job.attempt, updated := now }
  { jobs := q.jobs.erase job.id
    deadLetters := q.deadLetters.insert job.id ⟨job, now, reason⟩ }

/-- Make a dead letter a live job again, as if never attempted. -/
def revive (q : JobQueue) (id : Uuid) (now : Instant) : Except QueueError (Job × JobQueue) :=
  match q.deadLetters.get? id with
  | none => .error (.notFound id)
  | some letter =>
    let job := { letter.job with
      status := .pending, attempt := 0, scheduled := none, updated := now }
    .ok (job, { jobs := q.jobs.insert job.id job, deadLetters := q.deadLetters.erase id })

/-- Forget a dead letter. -/
def discard (q : JobQueue) (id : Uuid) : Except QueueError JobQueue :=
  if q.deadLetters.contains id then .ok { q with deadLetters := q.deadLetters.erase id }
  else .error (.notFound id)

end JobQueue

/-! ## Refusals -/

/-- Operations that a queue refuses, each with the failure it answers instead. -/
structure QueueGate where
  claims : Option QueueError := none
  /-- Updates and dead letters. -/
  writes : Option QueueError := none
  deriving DecidableEq, Repr, Inhabited

namespace QueueGate

/-- Claim, unless claims are refused. -/
def claim (g : QueueGate) (q : JobQueue) (now : Instant) :
    Except QueueError (Option Job × JobQueue) :=
  match g.claims with
  | some e => .error e
  | none => .ok (q.claim now)

/-- Update, unless writes are refused. -/
def update (g : QueueGate) (q : JobQueue) (job : Job) : Except QueueError JobQueue :=
  match g.writes with
  | some e => .error e
  | none => q.update job

/-- Give a job up, unless writes are refused. -/
def deadLetter (g : QueueGate) (q : JobQueue) (job : Job) (reason : String) (now : Instant) :
    Except QueueError JobQueue :=
  match g.writes with
  | some e => .error e
  | none => .ok (q.deadLetter job reason now)

end QueueGate

end Lineage
