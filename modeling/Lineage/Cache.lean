import Lineage.Abort
import Lineage.Cache.Address.Flaw
import Lineage.Settings
import Lineage.Table
import Lineage.Text.Quotation
import Lineage.Wire.Node

/-!
# Caches of node views

A cache keeps views of nodes, found by id and by code. A view is never served under a code that is
not its own.

* `MemoryCache` keeps views and a table from codes to ids.
* `RemoteCache` keeps texts on a server that several hierarchies may share: under the key of an id
  the view as JSON, under the key of a code the id in digits.
* `Cache` is one of the two.
-/

namespace Lineage

/-- Why a cache did not answer. -/
inductive CacheError
  | backend (detail : String)
  /-- A stored text is no view. -/
  | serialization (detail : String)
  deriving DecidableEq, Repr

/-- The failure in words. -/
def CacheError.message : CacheError → String
  | backend detail => "cache backend error: " ++ detail
  | serialization detail => "cache serialization failed: " ++ detail

variable {k : Kind}

/-! ## In memory -/

/-- Views by id, and ids by code. -/
structure MemoryCache (k : Kind) where
  /-- False for a cache without room, or one whose entries live for no time. -/
  retains : Bool := true
  byId : Table (NodeId k) (NodeView k) := ∅
  byCode : Table String (NodeId k) := ∅
  deriving Inhabited

namespace MemoryCache

/-- The longest life of an entry: a thousand years of 365 days. -/
def longestLife : Nat := 1000 * 365 * 86400 * nanosPerSecond

/-- An empty cache whose entries live for a time. -/
def create (life : Duration) (capacity : UInt64) : Except Abort (MemoryCache k) :=
  if longestLife < life.nanos then .error .lifeTooLong
  else .ok { retains := 0 < life.nanos && 0 < capacity }

/-- The view of an id. -/
def get? (c : MemoryCache k) (id : NodeId k) : Option (NodeView k) := c.byId.get? id

/-- The view that a code leads to, if it has the code. -/
def getByCode? (c : MemoryCache k) (code : String) : Option (NodeView k) :=
  (c.byCode.get? code >>= c.byId.get?).filter fun v => v.node.code == code

/-- Keep a view under its id and its code. -/
def put (c : MemoryCache k) (v : NodeView k) : MemoryCache k :=
  if c.retains then
    { c with byId := c.byId.insert v.node.id v, byCode := c.byCode.insert v.node.code v.node.id }
  else c

/-- Drop the view of an id, and its code if that leads to the id. -/
def delete (c : MemoryCache k) (id : NodeId k) : MemoryCache k :=
  match c.byId.get? id with
  | none => c
  | some v =>
    let byCode :=
      if c.byCode.get? v.node.code = some id then c.byCode.erase v.node.code else c.byCode
    { c with byId := c.byId.erase id, byCode }

end MemoryCache

/-! ## On a server -/

/-- The key of an id. -/
def idKey (hierarchy : String) (id : Int) : String := "trellis:" ++ hierarchy ++ ":id:" ++ id.repr

/-- The key of a code. -/
def codeKey (hierarchy code : String) : String := "trellis:" ++ hierarchy ++ ":code:" ++ code

/-- The texts on a server, each with the seconds it was given to live. -/
abbrev RemoteTexts := Table String (String × Nat)

/-- Views kept as texts on a server. -/
structure RemoteCache (k : Kind) where
  /-- The seconds every text is given to live. -/
  life : Nat := 3600
  texts : RemoteTexts := ∅
  deriving Inhabited

namespace RemoteCache

/-- A cache on an empty server, whose texts live for a time, one second at least. -/
def create (life : Duration) : RemoteCache k := { life := max life.seconds 1 }

/-- A stored text is no number. -/
def notANumber (s : String) : CacheError :=
  .backend ("Response was of incompatible type - TypeError: \"Could not convert from string.\" " ++
    "(response was string-data('" ++ Text.quotation s ++ "'))")

/-- The view of an id. -/
def get (c : RemoteCache k) (id : NodeId k) : Except CacheError (Option (NodeView k)) :=
  match c.texts.get? (idKey k.name id.toInt) with
  | none => .ok none
  | some (text, _) =>
    match Wire.read? text with
    | some v => .ok (some v)
    | none => .error (.serialization ("no view: " ++ text))

/-- The view that a code leads to, if it has the code. -/
def getByCode (c : RemoteCache k) (code : String) : Except CacheError (Option (NodeView k)) :=
  match c.texts.get? (codeKey k.name code) with
  | none => .ok none
  | some (text, _) =>
    match Text.integer? text.toList >>= NodeId.ofInt? with
    | none => .error (notANumber text)
    | some id => (c.get id).map fun v => v.filter fun v => v.node.code == code

/-- Keep a view under its id and its code. -/
def put (c : RemoteCache k) (v : NodeView k) : RemoteCache k :=
  { c with
    texts := (c.texts.insert (idKey k.name v.node.id.toInt) (Wire.write v, c.life)).insert
      (codeKey k.name v.node.code) (v.node.id.text, c.life) }

/-- Drop the view of an id and its code, whatever id that leads to. A text that is no view stays. -/
def delete (c : RemoteCache k) (id : NodeId k) : Except CacheError (RemoteCache k) := do
  let cached ← c.get id
  let texts := c.texts.erase (idKey k.name id.toInt)
  match cached with
  | none => return { c with texts }
  | some v => return { c with texts := texts.erase (codeKey k.name v.node.code) }

end RemoteCache

/-! ## Either -/

/-- A cache of views of the hierarchy of kind `k`. -/
inductive Cache (k : Kind)
  | memory (c : MemoryCache k)
  | remote (c : RemoteCache k)

namespace Cache

/-- The cache in memory that settings ask for. -/
def inMemory (s : Settings) : Except Abort (Cache k) :=
  (MemoryCache.create s.cacheTtl s.cacheCapacity).map memory

/-- The cache on the server that settings name. -/
def onServer (s : Settings) : Except CacheError (Cache k) :=
  match s.redisUrl with
  | none => .error (.backend "REDIS_URL is not set")
  | some url =>
    match Address.flaw? url with
    | some flaw => .error (.backend flaw.text)
    | none => .ok (remote (.create s.cacheTtl))

/-- The view of an id. -/
def get (c : Cache k) (id : NodeId k) : Except CacheError (Option (NodeView k)) :=
  match c with
  | memory c => .ok (c.get? id)
  | remote c => c.get id

/-- The view that a code leads to, if it has the code. -/
def getByCode (c : Cache k) (code : String) : Except CacheError (Option (NodeView k)) :=
  match c with
  | memory c => .ok (c.getByCode? code)
  | remote c => c.getByCode code

/-- Keep a view under its id and its code. -/
def put (c : Cache k) (v : NodeView k) : Cache k :=
  match c with
  | memory c => memory (c.put v)
  | remote c => remote (c.put v)

/-- Drop the view of an id. -/
def delete (c : Cache k) (id : NodeId k) : Except CacheError (Cache k) :=
  match c with
  | memory c => .ok (memory (c.delete id))
  | remote c => (c.delete id).map remote

end Cache

end Lineage
