import Lineage.Access.View
import Lineage.Hierarchy.Edit

/-!
# Looking things up

Single nodes are looked up in the cache first. Listings read the store; those of roots and children
take their nodes through the cache again, which may have changed them.
-/

namespace Lineage.Hierarchy

variable {k : Kind}

/-! ## Single nodes -/

/-- Let the rival add its edge, if one waits and the cache works. -/
def letRivalIn (h : Hierarchy k) : Hierarchy k :=
  match h.cacheOutage, h.rival with
  | none, some (ancestor, descendant) =>
    (({ h with rival := none }).link ancestor descendant).2
  | _, _ => h

/-- Answer from the cache, or else by work in a transaction whose result is cached. -/
def readThrough (h : Hierarchy k) (hit : Except CacheError (Option (NodeView k)))
    (w : Work k (NodeView k)) : Except (HierarchyError k) (NodeView k) × Hierarchy k :=
  match hit with
  | .ok (some v) => (.ok v, h)
  | _ =>
    match h.look w with
    | .error e => (.error e, h)
    | .ok v => (.ok v, h.letRivalIn.fill v h.writes)

/-- The active node with an id. -/
def findById (h : Hierarchy k) (id : NodeId k) :
    Except (HierarchyError k) (NodeView k) × Hierarchy k :=
  h.readThrough (h.cached id) (Work.viewById id)

/-- The active node with a code. -/
def findByCode (h : Hierarchy k) (code : String) :
    Except (HierarchyError k) (NodeView k) × Hierarchy k :=
  h.readThrough (h.cachedByCode code) (Work.viewByCode code)

/-- The id of the active node with a code, if there is one. -/
def idByCode (h : Hierarchy k) (code : String) :
    Except (HierarchyError k) (Option (NodeId k)) × Hierarchy k :=
  match h.findByCode code with
  | (.ok v, h) => (.ok (some v.node.id), h)
  | (.error (.notFound _), h) => (.ok none, h)
  | (.error e, h) => (.error e, h)

/-- The views of nodes, one after the other; those that are not found are left out. -/
def resolve : List (NodeId k) → Hierarchy k →
    Except (HierarchyError k) (List (NodeView k)) × Hierarchy k
  | [], h => (.ok [], h)
  | id :: rest, h =>
    match h.findById id with
    | (.ok v, h) =>
      match resolve rest h with
      | (.ok vs, h) => (.ok (v :: vs), h)
      | (.error e, h) => (.error e, h)
    | (.error (.notFound _), h) => resolve rest h
    | (.error e, h) => (.error e, h)

/-! ## Listings -/

/-- A page of the nodes of a lifecycle that a filter accepts, by id. -/
def page (h : Hierarchy k) (lifecycle : Lifecycle) (filter : NodeFilter) (p : Pagination) :
    Except (HierarchyError k) (Page (NodeView k)) :=
  h.look (Work.page lifecycle filter p)

/-- A slice of the nodes of a lifecycle that a filter accepts, by id. -/
def slice (h : Hierarchy k) (lifecycle : Lifecycle) (filter : NodeFilter) (p : Pagination) :
    Except (HierarchyError k) (Slice (NodeView k)) :=
  h.look (Work.slice lifecycle filter p)

/-- A page of the nodes that a window of ids names. -/
def pageOf (h : Hierarchy k) (window : Except (HierarchyError k) (List (NodeId k) × Nat))
    (p : Pagination) : Except (HierarchyError k) (Page (NodeView k)) × Hierarchy k :=
  match window with
  | .error e => (.error e, h)
  | .ok (ids, total) =>
    match resolve ids h with
    | (.ok views, h) => (.ok (Page.of views (UInt64.ofNat total) p), h)
    | (.error e, h) => (.error e, h)

/-- A page of the active nodes that are nobody's descendant, by id. -/
def roots (h : Hierarchy k) (p : Pagination) :
    Except (HierarchyError k) (Page (NodeView k)) × Hierarchy k :=
  h.pageOf (h.look (Work.roots p)) p

/-- A page of the active nodes one edge below an active node, by id. -/
def children (h : Hierarchy k) (ancestor : NodeId k) (p : Pagination) :
    Except (HierarchyError k) (Page (NodeView k)) × Hierarchy k :=
  h.pageOf (h.look (Work.children ancestor p)) p

/-- The active nodes at least one edge below any of some nodes, ascending. -/
def descendantIds (h : Hierarchy k) (ids : List (NodeId k)) :
    Except (HierarchyError k) (List (NodeId k)) :=
  if ids.isEmpty then .ok [] else h.look (Work.descendants ids)

/-- Those of some nodes that have a node one edge below them, ascending. -/
def parents (h : Hierarchy k) (ids : List (NodeId k)) :
    Except (HierarchyError k) (List (NodeId k)) :=
  if ids.isEmpty then .ok [] else h.look (Work.ask (.ancestorsWithDescendants ids))

/-! ## For access checks -/

/-- An answer, or the words of its error. -/
def worded {α : Type} (answer : Except (HierarchyError k) α) : Except String α :=
  match answer with
  | .ok a => .ok a
  | .error e => .error e.message

/-- The hierarchy as an access check sees it. -/
def view (h : Hierarchy k) : View k where
  idByCode code := worded (h.idByCode code).1
  descendantIds ids := worded (h.descendantIds ids)

/-- The hierarchy as an access check for a code sees it when the code is looked up first, and the
hierarchy after that: the walks follow the lookup. -/
def viewAfterLookup (h : Hierarchy k) (code : String) : View k × Hierarchy k :=
  let (found, after) := h.idByCode code
  ({ after.view with
      idByCode := fun c => if c = code then worded found else worded (after.idByCode c).1 }, after)

end Lineage.Hierarchy
