import Lineage.Access
import Lineage.Cache
import Lineage.Error
import Lineage.Job.Executor
import Lineage.LogFormat
import Lineage.Registry
import Lineage.Report

/-!
# Failures as JSON

Every failure has a kind, a fixed word for its cause, next to its words. A hierarchy whose store
fails reports the failure of the store itself.
-/

namespace Lineage

open Report (failure)

/-- The kind of a failure of storage. -/
def StoreError.kind : StoreError → String
  | unavailable _ => "Store.Unavailable"
  | constraint _ => "Store.Constraint"
  | serialization _ => "Store.Serialization"
  | backend _ => "Store.Backend"

instance : Report StoreError := ⟨fun e => failure e.kind e.message⟩

/-- The kind of an error of a hierarchy; a failure of its store keeps its own. -/
def HierarchyError.kind {k : Kind} : HierarchyError k → String
  | conflict _ => "Conflict"
  | cycle _ _ => "Cycle"
  | duplicatePath _ _ => "DuplicatePath"
  | descendantHasDescendant _ => "DescendantHasDescendant"
  | inUse _ _ => "InUse"
  | notFound _ => "NotFound"
  | validation _ => "Validation"
  | scheduler _ => "Scheduler"
  | store cause => cause.kind

instance {k : Kind} : Report (HierarchyError k) := ⟨fun e => failure e.kind e.message⟩

/-- What a text that is no view looks like depends on who reads it, so its words are left out. -/
instance : Report CacheError where
  json
    | .backend detail => failure "Cache.Backend" (CacheError.backend detail).message
    | .serialization _ => .object [("error", .string "Cache.Serialization")]

instance : Report GuardError := ⟨fun e => failure "Guard.Unavailable" e.message⟩

/-- The kind of a failure of a queue. -/
def QueueError.kind : QueueError → String
  | notFound _ => "Job.NotFound"
  | alreadyExists _ => "Job.AlreadyExists"
  | storage _ => "Job.Storage"

instance : Report QueueError := ⟨fun e => failure e.kind e.message⟩

/-- The kind of an execution without success. -/
def ExecutionError.kind : ExecutionError → String
  | handler _ => "Handler"
  | persist _ => "Persist"

instance : Report ExecutionError := ⟨fun e => failure e.kind e.message⟩

/-- The kind of a refusal of access. -/
def AccessError.kind : AccessError → String
  | forbidden _ => "Forbidden"
  | unknownPermission _ => "UnknownPermission"
  | hierarchy _ => "Hierarchy"

instance : Report AccessError := ⟨fun e => failure e.kind e.message⟩

/-- A refused setting is reported with its name, its value and the reason. -/
instance : Report InvalidSetting where
  json e := .object [("error", .string "Invalid"), ("message", .string e.message),
    ("var", .string e.name), ("value", .string e.value), ("reason", .string e.reason)]

instance : Report LogFormat.Unknown := ⟨fun e => failure "LogFormat" e.message⟩

end Lineage
