import Lineage.Store.Contents

/-!
# The store in memory

A `MemoryStore k` holds the committed `Contents`. A transaction begins with a copy of them, answers
calls, and either commits its copy or is dropped. A transaction that is cut off by an `Abort` leaves
the store locked: none begins any more.

A store may be told to refuse one method, `begin` and `commit` included.
-/

namespace Lineage

/-- A method that a store refuses, and the failure it answers instead. -/
structure Refusal where
  method : String
  cause : StoreError
  deriving DecidableEq, Repr

/-- Committed contents, and what keeps the store from working on them. -/
structure MemoryStore (k : Kind) where
  contents : Contents k := {}
  locked : Bool := false
  refusal : Option Refusal := none
  deriving Inhabited

namespace MemoryStore

variable {k : Kind}

/-- The failure that a method meets. -/
def failureOf? (s : MemoryStore k) (method : String) : Option StoreError :=
  (s.refusal.filter fun r => r.method == method).map (·.cause)

/-- The failure of a locked store. -/
def lockedError : StoreError := .unavailable "lock poisoned"

/-- The committed contents, unless the store is locked. -/
def committed (s : MemoryStore k) : Except StoreError (Contents k) :=
  if s.locked then .error lockedError else .ok s.contents

/-- The contents with which a transaction begins. -/
def begin (s : MemoryStore k) : Except StoreError (Contents k) :=
  match s.failureOf? "begin" with
  | some e => .error e
  | none => s.committed

/-- The answer to a call in a transaction, and the transaction's contents after it. -/
def answer {α : Type} (s : MemoryStore k) (c : Call k α) (t : Contents k) :
    Except StoreError α × Contents k :=
  match s.failureOf? c.name with
  | some e => (.error e, t)
  | none => t.perform c

/-- The store after a transaction has committed its contents. -/
def commit (s : MemoryStore k) (t : Contents k) : Except StoreError (MemoryStore k) :=
  match s.failureOf? "commit" with
  | some e => .error e
  | none => .ok { s with contents := t }

/-- The store after a transaction was cut off. -/
def lock (s : MemoryStore k) : MemoryStore k := { s with locked := true }

end MemoryStore

end Lineage
