import Lineage.Access.Principal
import Lineage.Job
import Lineage.Registry
import Lineage.Time.Stamp
import Lineage.Wire.Node

/-!
# Jobs, consumers and principals as JSON

A variant without fields is its name, or an object that maps its name to `null`. A variant with
fields is an object that maps its name to the object of its fields.
-/

namespace Lineage

/-- The name of a variant and what it carries. -/
def Wire.variant? : Json → Option (String × Json)
  | .string name => some (name, .null)
  | .object [(name, body)] => some (name, body)
  | _ => none

/-- The fields of a variant. They are never told apart by position. -/
def Record.ofVariant? (shape : Json.Shape) : Json → Option Record
  | .array _ => none
  | body => Record.open? shape body

instance : Wire Uuid where
  encode u := .string u.text
  decode?
    | .string s => Uuid.read? s
    | _ => none

instance : Wire Instant where
  encode t := .string (Stamp.text t)
  decode?
    | .string s => Stamp.read? s
    | _ => none

/-- The shape of a duration. No other member is ignored. -/
def Duration.shape : Json.Shape := .closed [("secs", .plain), ("nanos", .plain)]

/-- Whole seconds and the nanoseconds beyond them. A second or more of nanoseconds is carried
over when it is read. -/
instance : Wire Duration where
  shape := Duration.shape
  encode d := .object [("secs", .nat d.seconds), ("nanos", .nat d.subsecond)]
  decode? j := do
    match j with
    | .object members => guard (members.all fun m => Duration.shape.names.contains m.1)
    | _ => pure ()
    let r ← Record.open? Duration.shape j
    let secs : UInt64 ← r.required? "secs"
    let nanos : UInt32 ← r.required? "nanos"
    Duration.ofNanos? (secs.toNat * nanosPerSecond + nanos.toNat)

/-- The shape of a backoff. -/
def Backoff.shape : Json.Shape := .closed []

instance : Wire Backoff where
  shape := Backoff.shape
  encode
    | .fixed => .string "fixed"
    | .exponential => .string "exponential"
  decode? j := do
    match ← Wire.variant? j with
    | ("fixed", .null) => some .fixed
    | ("exponential", .null) => some .exponential
    | _ => none

/-- The shape of a retry policy. -/
def RetryPolicy.shape : Json.Shape :=
  .record [("max_attempts", .plain), ("base_delay", Duration.shape), ("max_delay", Duration.shape),
    ("strategy", Backoff.shape)]

instance : Wire RetryPolicy where
  shape := RetryPolicy.shape
  encode p := .object [("max_attempts", Wire.encode p.maxAttempts),
    ("base_delay", Wire.encode p.baseDelay), ("max_delay", Wire.encode p.maxDelay),
    ("strategy", Wire.encode p.backoff)]
  decode? j := do
    let r ← Record.open? RetryPolicy.shape j
    let maxAttempts ← r.required? "max_attempts"
    let baseDelay ← r.required? "base_delay"
    let maxDelay ← r.required? "max_delay"
    let backoff ← r.required? "strategy"
    some { maxAttempts, baseDelay, maxDelay, backoff }

/-- The shape of the fields of a purge. -/
def JobKind.purgeShape : Json.Shape := .record [("route", .plain)]

/-- The shape of the fields of a kind of one's own. -/
def JobKind.customShape : Json.Shape := .record [("kind", .plain)]

instance : Wire JobKind where
  shape := .closed [("archive_purge", JobKind.purgeShape), ("custom", JobKind.customShape)]
  encode
    | .archivePurge route => .object [("archive_purge", .object [("route", .string route)])]
    | .custom kind => .object [("custom", .object [("kind", .string kind)])]
  decode? j := do
    match ← Wire.variant? j with
    | ("archive_purge", body) =>
      let r ← Record.ofVariant? JobKind.purgeShape body
      some (.archivePurge (← r.required? "route"))
    | ("custom", body) =>
      let r ← Record.ofVariant? JobKind.customShape body
      some (.custom (← r.required? "kind"))
    | _ => none

/-- The shape of the fields of a failure. -/
def JobStatus.failedShape : Json.Shape := .record [("error", .plain), ("attempt", .plain)]

/-- The shape of the fields of a failure for good. -/
def JobStatus.deadShape : Json.Shape := .record [("error", .plain), ("attempts", .plain)]

instance : Wire JobStatus where
  shape := .closed [("failed", JobStatus.failedShape), ("dead_lettered", JobStatus.deadShape)]
  encode
    | .pending => .string "pending"
    | .running => .string "running"
    | .completed => .string "completed"
    | .failed error attempt =>
      .object [("failed", .object [("error", .string error), ("attempt", Wire.encode attempt)])]
    | .deadLettered error attempts =>
      .object [("dead_lettered",
        .object [("error", .string error), ("attempts", Wire.encode attempts)])]
  decode? j := do
    match ← Wire.variant? j with
    | ("pending", .null) => some .pending
    | ("running", .null) => some .running
    | ("completed", .null) => some .completed
    | ("failed", body) =>
      let r ← Record.ofVariant? JobStatus.failedShape body
      some (.failed (← r.required? "error") (← r.required? "attempt"))
    | ("dead_lettered", body) =>
      let r ← Record.ofVariant? JobStatus.deadShape body
      some (.deadLettered (← r.required? "error") (← r.required? "attempts"))
    | _ => none

/-- The shape of a job. -/
def Job.shape : Json.Shape :=
  .record [("id", .plain), ("kind", Wire.shape JobKind), ("payload", .free),
    ("status", Wire.shape JobStatus), ("retry_policy", RetryPolicy.shape), ("attempt", .plain),
    ("created_at", .plain), ("updated_at", .plain), ("scheduled_at", .plain)]

instance : Wire Job where
  shape := Job.shape
  encode j := .object [("id", Wire.encode j.id), ("kind", Wire.encode j.kind),
    ("payload", j.payload), ("status", Wire.encode j.status),
    ("retry_policy", Wire.encode j.policy), ("attempt", Wire.encode j.attempt),
    ("created_at", Wire.encode j.created), ("updated_at", Wire.encode j.updated),
    ("scheduled_at", Wire.encode j.scheduled)]
  decode? j := do
    let r ← Record.open? Job.shape j
    let id ← r.required? "id"
    let kind ← r.required? "kind"
    let payload ← r.required? "payload"
    let status ← r.required? "status"
    let policy ← r.required? "retry_policy"
    let attempt ← r.required? "attempt"
    let created ← r.required? "created_at"
    let updated ← r.required? "updated_at"
    let scheduled ← r.optional? "scheduled_at"
    some { id, kind, payload, status, policy, attempt, created, updated, scheduled }

/-- The shape of a dead letter. -/
def DeadLetter.shape : Json.Shape :=
  .record [("job", Job.shape), ("dead_lettered_at", .plain), ("reason", .plain)]

instance : Wire DeadLetter where
  shape := DeadLetter.shape
  encode d := .object [("job", Wire.encode d.job), ("dead_lettered_at", Wire.encode d.since),
    ("reason", .string d.reason)]
  decode? j := do
    let r ← Record.open? DeadLetter.shape j
    let job ← r.required? "job"
    let since ← r.required? "dead_lettered_at"
    let reason ← r.required? "reason"
    some { job, since, reason }

/-- The shape of a consumer. -/
def Consumer.shape : Json.Shape := .record [("code", .plain), ("display_name", .plain)]

instance : Wire Consumer where
  shape := Consumer.shape
  encode c := .object [("code", .string c.code), ("display_name", .string c.displayName)]
  decode? j := do
    let r ← Record.open? Consumer.shape j
    let code ← r.required? "code"
    let displayName ← r.required? "display_name"
    some { code, displayName }

/-- The shape of a principal. -/
def Principal.shape : Json.Shape :=
  .record [("principal_id", .plain), ("roles", .list .plain), ("permissions", .list .plain)]

instance : Wire Principal where
  shape := Principal.shape
  encode p := .object [("principal_id", Wire.encode p.id), ("roles", Wire.encode p.roles),
    ("permissions", Wire.encode p.permissions)]
  decode? j := do
    let r ← Record.open? Principal.shape j
    let id ← r.required? "principal_id"
    let roles ← r.required? "roles"
    let permissions ← r.required? "permissions"
    some { id, roles, permissions }

end Lineage
