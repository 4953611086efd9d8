import Lineage.Hierarchy.Edit
import Lineage.Job.Executor

/-!
# Archiving and deferred purges

An archived node is purged after the grace period by a job. The job is never taken back: when it
runs it looks again whether the node is archived and out of use.

* `PurgeScheduler`: puts purge jobs into the queue.
* `Hierarchy.archiveBy`: archive a node and ask any scheduler for its purge.
* `Hierarchy.archive`: the same with the queue.
* `Hierarchy.purgeHandler`: what a purge job does.
-/

namespace Lineage

/-- How purge jobs get into the queue. -/
structure PurgeScheduler where
  policy : RetryPolicy := {}
  /-- The failure that the queue answers to every job, if it fails. -/
  outage : Option QueueError := none
  deriving DecidableEq, Repr, Inhabited

namespace PurgeScheduler

/-- The scheduler whose jobs have a number of attempts, one at least. -/
def ofAttempts (attempts : UInt32) : PurgeScheduler :=
  { policy := { maxAttempts := max attempts 1 } }

/-- The payload of the purge of a node. -/
def payload (id : Int) : Json := .object [("id", .int id)]

/-- Enqueue the purge of a node, not to be run before an instant. -/
def schedule (s : PurgeScheduler) (hierarchy : String) (id : Int) (due : Instant) (job : Uuid)
    (now : Instant) (q : JobQueue) : Except QueueError JobQueue :=
  match s.outage with
  | some e => .error e
  | none =>
    q.enqueue { Job.new job (.purgeOf hierarchy) (payload id) now with
      policy := s.policy, scheduled := some due }

/-- Ask for the purge of a node. A queue that takes no job stays as it is. -/
def request (s : PurgeScheduler) (hierarchy : String) (id : Int) (due : Instant) (job : Uuid)
    (now : Instant) (q : JobQueue) : Except QueueError Unit × JobQueue :=
  match s.schedule hierarchy id due job now q with
  | .ok q => (.ok (), q)
  | .error e => (.error e, q)

end PurgeScheduler

/-- Why an operation with jobs did not take place. -/
inductive Failure (k : Kind)
  | refused (cause : HierarchyError k)
  | aborted (cause : Abort)
  deriving DecidableEq, Repr

namespace Hierarchy

variable {k : Kind}

/-- What is said about a grace period that cannot be added to an instant. -/
def graceTooLong : String := "Source duration value is out of range for the target type"

/-- What is said about a queue that takes no job. -/
def notEnqueued (e : QueueError) : String := "failed to enqueue purge job: " ++ e.message

/-- Archive an active node that nobody uses, and ask a scheduler for its purge after the grace
period. The scheduler, which keeps jobs of its own, is asked within the transaction: if it fails,
the node stays active. -/
def archiveBy {σ : Type} (h : Hierarchy k) (schedule : Instant → σ → Except QueueError Unit × σ)
    (jobs : σ) (now : Instant) (id : NodeId k) : Except (Failure k) Unit × Hierarchy k × σ :=
  match h.requireUnused id with
  | .error e => (.error (.refused e), h, jobs)
  | .ok () =>
    match (Work.archive id).run h.store with
    | .error e => (.error (.refused e), h, jobs)
    | .ok ((), t) =>
      match h.settings.gracePeriod.step? with
      | none => (.error (.refused (.scheduler graceTooLong)), h, jobs)
      | some grace =>
        match now.add? grace with
        | none => (.error (.aborted .pastLastInstant), { h with store := h.store.lock }, jobs)
        | some due =>
          match schedule due jobs with
          | (.error e, jobs) => (.error (.refused (.scheduler (notEnqueued e))), h, jobs)
          | (.ok (), jobs) =>
            match h.store.commit t with
            | .error e => (.error (.refused (.store e)), h, jobs)
            | .ok store => (.ok (), ({ h with store }).invalidate [id], jobs)

/-- Archive an active node that nobody uses, and put its purge after the grace period into a queue
of jobs. -/
def archive (h : Hierarchy k) (scheduler : PurgeScheduler) (q : JobQueue) (now : Instant)
    (job : Uuid) (id : NodeId k) : Except (Failure k) Unit × Hierarchy k × JobQueue :=
  h.archiveBy (fun due => scheduler.request k.name id.toInt due job now) q now id

/-! ## The purge job -/

/-- The id in the payload of a purge job. -/
def purgeTarget? (payload : Json) : Option (NodeId k) :=
  payload.member? "id" >>= Json.int? >>= NodeId.ofInt?

/-- Purge the node that a job names. Whatever became of it, the job is done; only an error fails
the job. -/
def runPurge (job : Job) (h : Hierarchy k) : JobResult × Hierarchy k :=
  match purgeTarget? job.payload with
  | none => (.failure ("purge payload without id: " ++ job.payload.text), h)
  | some id =>
    match h.purge id with
    | (.ok _, h) => (.success, h)
    | (.error e, h) => (.failure e.message, h)

/-- The handler of purge jobs for one hierarchy among all that a state holds. -/
def purgeHandler {σ : Type} (get : σ → Hierarchy k) (set : Hierarchy k → σ → σ) : Handler σ :=
  fun job world =>
    let (result, h) := runPurge job (get world)
    (result, set h world)

end Hierarchy

namespace Executor

variable {k : Kind} {σ : Type}

/-- Route the purges of a hierarchy to it. -/
def registerPurge (x : Executor σ) (get : σ → Hierarchy k) (set : Hierarchy k → σ → σ) :
    Executor σ :=
  x.register (JobKind.purgeRoute k.name) (Hierarchy.purgeHandler get set)

end Executor

end Lineage
