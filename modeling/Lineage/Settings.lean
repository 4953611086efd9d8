import Lineage.Text.Blank
import Lineage.Text.Numeral
import Lineage.Time

/-!
# Settings of a hierarchy

`Settings.read` takes them from named variables. A variable that is missing or blank leaves its
default; one that does not fit its type is refused, the first in the order worker, grace period,
cache, purge attempts, detaching.
-/

namespace Lineage

/-- The settings of a hierarchy. -/
structure Settings where
  /-- The time between archiving a node and its purge. -/
  gracePeriod : Duration := .ofSeconds 1296000
  /-- How long a cached view lives. -/
  cacheTtl : Duration := .ofSeconds 3600
  cacheCapacity : UInt64 := 10000
  /-- The attempts of a purge job, the first one included. -/
  purgeAttempts : UInt32 := 5
  worker : UInt16 := 0
  /-- Whether an edge is detached only from a node without descendants. -/
  leafOnlyDetach : Bool := true
  databaseUrl : Option String := none
  redisUrl : Option String := none
  deriving DecidableEq, Repr, Inhabited

/-- A variable whose value was refused. -/
structure InvalidSetting where
  name : String
  value : String
  reason : String
  deriving DecidableEq, Repr

/-- The refusal in words. -/
def InvalidSetting.message (e : InvalidSetting) : String :=
  "invalid value for " ++ e.name ++ ": '" ++ e.value ++ "' (" ++ e.reason ++ ")"

namespace Settings

/-- The largest worker number. -/
def maxWorker : UInt16 := 1023

/-- The value of a variable that is set and not blank. -/
def value? (lookup : String → Option String) (name : String) : Option String :=
  (lookup name).filter fun v => !Text.isBlankText v

/-- The value of a variable with its surrounding blanks removed, read by `read`. -/
def field {α : Type} (lookup : String → Option String) (name : String) (default : α)
    (read : List Char → Except Text.NumeralFlaw α) : Except InvalidSetting α :=
  match value? lookup name with
  | none => .ok default
  | some raw =>
    match read (Text.trim raw.toList) with
    | .ok a => .ok a
    | .error flaw => .error ⟨name, raw, flaw.text⟩

/-- A number below `bound`. -/
def number (lookup : String → Option String) (name : String) (default bound : Nat) :
    Except InvalidSetting Nat :=
  field lookup name default (Text.numeralBelow bound)

/-- The settings that variables give. -/
def read (lookup : String → Option String) : Except InvalidSetting Settings := do
  let d : Settings := {}
  let worker ← number lookup "TRELLIS_WORKER_ID" d.worker.toNat UInt16.size
  if maxWorker.toNat < worker then
    throw ⟨"TRELLIS_WORKER_ID", worker.repr, "must be at most " ++ maxWorker.toNat.repr⟩
  let grace ← number lookup "TRELLIS_ARCHIVE_GRACE_PERIOD_SECS" d.gracePeriod.seconds
    UInt64.size
  let ttl ← number lookup "TRELLIS_CACHE_TTL_SECS" d.cacheTtl.seconds UInt64.size
  let capacity ← number lookup "TRELLIS_CACHE_MAX_CAPACITY" d.cacheCapacity.toNat UInt64.size
  let attempts ← number lookup "TRELLIS_PURGE_MAX_ATTEMPTS" d.purgeAttempts.toNat UInt32.size
  let leafOnly ← field lookup "TRELLIS_LEAF_ONLY_DETACH" d.leafOnlyDetach Text.flag
  return {
    gracePeriod := .ofSeconds (UInt64.ofNat grace)
    cacheTtl := .ofSeconds (UInt64.ofNat ttl)
    cacheCapacity := UInt64.ofNat capacity
    purgeAttempts := UInt32.ofNat attempts
    worker := UInt16.ofNat worker
    leafOnlyDetach := leafOnly
    databaseUrl := value? lookup "DATABASE_URL"
    redisUrl := value? lookup "REDIS_URL" }

end Settings

end Lineage
