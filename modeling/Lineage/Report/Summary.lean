import Lineage.Access
import Lineage.Closure
import Lineage.Hierarchy.Edit
import Lineage.Job.Queue
import Lineage.Job.Executor
import Lineage.Report
import Lineage.Sql.Statement
import Lineage.Wire.Job

/-!
# Results as JSON

The results of operations that nobody reads back: plans, repairs, counts, decisions, settings, the
contents of a store, the statements sent to a database.
-/

namespace Lineage

open Report (json)

variable {k : Kind}

instance : Report (Closure.LinkPlan k) where
  json p := .object [("insert", json p.insert), ("shorten", json p.shorten),
    ("empty", .bool p.isEmpty)]

instance : Report (Closure.Reconciliation k) where
  json r := .object [("stale", json r.stale), ("missing", json r.missing),
    ("redepth", json r.redepth), ("empty", .bool r.isEmpty)]

/-- Contents are shown as ids and codes of the records, and the closure rows. -/
instance : Report (Contents k) where
  json c :=
    let named (t : Table (NodeId k) (Node k)) : Json :=
      .array (t.values.map fun n => .array [json n.id, .string n.code])
    .object [("active", named c.active), ("archived", named c.archived), ("paths", json c.rows)]

instance : Report PurgeOutcome where
  json
    | .purged => .object [("outcome", .string "purged")]
    | .inUse codes => .object [("outcome", .string "in_use"), ("codes", json codes)]
    | .notArchived => .object [("outcome", .string "not_archived")]

instance : Report QueueStats where
  json s := .object [("pending", json s.pending), ("running", json s.running),
    ("completed", json s.completed), ("failed", json s.failed),
    ("dead_lettered", json s.deadLettered)]

instance : Report WorkStats where
  json s := .object [("jobs_processed", json s.processed), ("jobs_succeeded", json s.succeeded),
    ("jobs_failed", json s.failed), ("jobs_dead_lettered", json s.deadLettered)]

/-- The reason of a decision is shown in words. -/
instance : Report Access.Explanation where
  json e := .object [("principal_id", json e.principal), ("required_permission", json e.required),
    ("granted", .bool e.granted), ("reason", .string (e.reason.text e.required)),
    ("effective_permissions", json e.effective)]

/-- Spans are shown in whole seconds. -/
instance : Report Settings where
  json s := .object [("archive_grace_period_secs", json s.gracePeriod.seconds),
    ("cache_max_capacity", json s.cacheCapacity), ("cache_ttl_secs", json s.cacheTtl.seconds),
    ("database_url", json s.databaseUrl), ("leaf_only_detach", json s.leafOnlyDetach),
    ("purge_max_attempts", json s.purgeAttempts), ("redis_url", json s.redisUrl),
    ("worker_id", json s.worker.toNat)]

instance : Report Tables where
  json t := .object [("nodes", json t.nodes), ("archived", json t.archived),
    ("paths", json t.paths), ("schema", json t.schema)]

instance : Report Sql.Param where
  json
    | .null => .null
    | .int n => .int n
    | .text s => .string s
    | .ints ns => json ns
    | .json j => j.reread?.getD j

end Lineage
