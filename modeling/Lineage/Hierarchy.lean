import Lineage.Cache
import Lineage.Hierarchy.Work
import Lineage.IdSource
import Lineage.Registry

/-!
# A hierarchy at work

A `Hierarchy k` is a store with all that surrounds it: a cache of views, a registry of consumers, a
source of ids and the settings.

Views are cached when they are looked up and dropped when a committed change touches their node. The
cache is a convenience: its failures fail nothing. `writes` counts the changes, so that a view that
was read before a change is not left in the cache after it.

* `Hierarchy.change`: a change in one transaction.
* `Hierarchy.look`: a lookup in one transaction.
* `Hierarchy.fill`: keep a view that was looked up.
* `Hierarchy.consumers`: who uses a node.
-/

namespace Lineage

/-- A store, and what surrounds it. -/
structure Hierarchy (k : Kind) where
  settings : Settings := {}
  store : MemoryStore k := {}
  cache : Cache k
  /-- The failure that the cache answers to every call, if it fails. -/
  cacheOutage : Option CacheError := none
  registry : Registry k := {}
  guard : Guard := .registry
  ids : IdSource := .sequence {}
  /-- The number of changes committed so far. -/
  writes : UInt64 := 0
  /-- An edge that someone else adds right before the next view is cached: first its ancestor, then
  its descendant. -/
  rival : Option (NodeId k × NodeId k) := none

namespace Hierarchy

variable {k : Kind}

/-! ## The cache -/

/-- What the cache answers for an id. -/
def cached (h : Hierarchy k) (id : NodeId k) : Except CacheError (Option (NodeView k)) :=
  match h.cacheOutage with
  | some e => .error e
  | none => h.cache.get id

/-- What the cache answers for a code. -/
def cachedByCode (h : Hierarchy k) (code : String) : Except CacheError (Option (NodeView k)) :=
  match h.cacheOutage with
  | some e => .error e
  | none => h.cache.getByCode code

/-- Drop the cached view of a node. A cache that fails keeps it. -/
def evict (h : Hierarchy k) (id : NodeId k) : Hierarchy k :=
  match h.cacheOutage, h.cache.delete id with
  | none, .ok cache => { h with cache }
  | _, _ => h

/-- Count a change, and drop the cached views of the nodes it touched. -/
def invalidate (h : Hierarchy k) (touched : List (NodeId k)) : Hierarchy k :=
  touched.foldl evict { h with writes := h.writes + 1 }

/-- Keep a view that was read when `seen` changes had been counted. If there are more by now it is
dropped again. -/
def fill (h : Hierarchy k) (v : NodeView k) (seen : UInt64) : Hierarchy k :=
  match h.cacheOutage with
  | some _ => h
  | none =>
    let h := { h with cache := h.cache.put v }
    if h.writes = seen then h else h.evict v.node.id

/-! ## Transactions -/

/-- Do work in a transaction, commit it and drop the cached views of the nodes it touched. Work
without touched nodes is not committed. Work that gives up changes nothing. -/
def change {α : Type} (h : Hierarchy k) (w : Work k (α × Option (List (NodeId k))))
    (failed : StoreError → HierarchyError k := .store) :
    Except (HierarchyError k) α × Hierarchy k :=
  match w.run h.store with
  | .error e => (.error e, h)
  | .ok ((a, none), _) => (.ok a, h)
  | .ok ((a, some touched), t) =>
    match h.store.commit t with
    | .error e => (.error (failed e), h)
    | .ok store => (.ok a, ({ h with store }).invalidate touched)

/-- Do work in a transaction that is not committed. -/
def look {α : Type} (h : Hierarchy k) (w : Work k α) : Except (HierarchyError k) α :=
  (w.run h.store).map (·.1)

/-! ## Consumers -/

/-- The codes of the consumers of a node. -/
def consumers (h : Hierarchy k) (id : NodeId k) : Except (HierarchyError k) (List String) :=
  match h.guard.consumersOf h.registry id with
  | .ok cs => .ok (cs.map (·.code))
  | .error e => .error (.store (.unavailable e.message))

/-- Require that nobody uses a node. -/
def requireUnused (h : Hierarchy k) (id : NodeId k) : Except (HierarchyError k) Unit := do
  let codes ← h.consumers id
  if codes.isEmpty then return () else throw (.inUse id codes)

end Hierarchy

end Lineage
