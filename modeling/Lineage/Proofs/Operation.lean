import Lineage.Hierarchy.Archive

/-!
# Operations

An `Operation k` is one of the nine changes that are asked of a hierarchy. What it depends on
beside the hierarchy is a value of its own, `Surroundings k`, which may be another one at every
operation: who answers for consumers, where ids come from, the clock, and the queue of jobs.

* `Hierarchy.serve`: one operation.
* `Hierarchy.run`: one operation after the other.
-/

namespace Lineage

/-- A change that is asked of a hierarchy. -/
inductive Operation (k : Kind)
  | add (new : NewNode k)
  | update (node : Node k)
  | link (ancestor descendant : NodeId k)
  | unlink (ancestor descendant : NodeId k)
  | archive (id : NodeId k)
  | recover (id : NodeId k)
  | purge (id : NodeId k)
  | delete (id : NodeId k)
  | deleteByCode (code : String)

/-- What an operation that took place answers. -/
inductive Reply (k : Kind)
  | done
  | node (node : Node k)
  | purge (outcome : PurgeOutcome)

/-- What an operation depends on beside the hierarchy. -/
structure Surroundings (k : Kind) where
  guard : Guard
  registry : Registry k
  ids : IdSource
  /-- What the clock of the ids shows. -/
  millis : Int
  scheduler : PurgeScheduler
  queue : JobQueue
  now : Instant
  /-- The id of a job that is put into the queue. -/
  job : Uuid

namespace Surroundings

variable {k : Kind}

/-- The consumers of a node. -/
def consumersOf (env : Surroundings k) (id : NodeId k) : Except GuardError (List Consumer) :=
  env.guard.consumersOf env.registry id

/-- The id under which a node is registered. -/
def idFor (env : Surroundings k) (new : NewNode k) : NodeId k :=
  new.id.getD ⟨(env.ids.draw env.millis).1⟩

/-- Whether the purge of a node can be scheduled after a grace period: the queue takes jobs and has
none with the new id, and the instant of the purge can be represented. -/
def Ready (env : Surroundings k) (grace : Duration) : Prop :=
  env.scheduler.outage = none ∧ env.queue.jobs.contains env.job = false ∧
    ∃ n due, grace.step? = some n ∧ env.now.add? n = some due

/-- Surroundings at the start of 1970 in which nothing is in use and no job waits. -/
def calm : Surroundings k where
  guard := .absent
  registry := {}
  ids := .sequence {}
  millis := 0
  scheduler := {}
  queue := {}
  now := ⟨0, false⟩
  job := default

end Surroundings

namespace Hierarchy

variable {k : Kind}

/-- The hierarchy in its surroundings. -/
def within (h : Hierarchy k) (env : Surroundings k) : Hierarchy k :=
  { h with guard := env.guard, registry := env.registry, ids := env.ids }

/-- The answer of an operation that no job is part of. -/
def replied {α : Type} (reply : α → Reply k) (r : Except (HierarchyError k) α × Hierarchy k) :
    Except (Failure k) (Reply k) × Hierarchy k :=
  ((r.1.map reply).mapError .refused, r.2)

/-- Do what an operation asks for. -/
def serve (h : Hierarchy k) (env : Surroundings k) :
    Operation k → Except (Failure k) (Reply k) × Hierarchy k
  | .add new => replied .node ((h.within env).add env.millis new)
  | .update node => replied .node ((h.within env).update node)
  | .link a d => replied (fun _ => .done) ((h.within env).link a d)
  | .unlink a d => replied (fun _ => .done) ((h.within env).unlink a d)
  | .archive id =>
    let (answer, h, _) :=
      (h.within env).archive env.scheduler env.queue env.now env.job id
    (answer.map fun _ => .done, h)
  | .recover id => replied (fun _ => .done) ((h.within env).recover id)
  | .purge id => replied .purge ((h.within env).purge id)
  | .delete id => replied (fun _ => .done) ((h.within env).delete id)
  | .deleteByCode code => replied (fun _ => .done) ((h.within env).deleteByCode code)

/-- Do what operations ask for, one after the other. -/
def run (h : Hierarchy k) :
    List (Surroundings k × Operation k) → List (Except (Failure k) (Reply k)) × Hierarchy k
  | [] => ([], h)
  | (env, op) :: rest =>
    let (answer, h) := h.serve env op
    let (answers, h) := run h rest
    (answer :: answers, h)

end Hierarchy

end Lineage
