import Lineage.Proofs.Search

/-!
# Searching within a limit

A depth is a number of 32 bits, so that the sums of a search could wrap. `searchedWithin limit` is
the search with a queue that checks every sum before it forms it and gives up at the first one that
exceeds the limit.

* `drainWithin_eq`, `searchedWithin_eq`: a search that meets no level beyond the limit does not give
  up, and finds what the search without checks does.
* `closureWithin_eq`: so does the search from all roots.
-/

namespace Lineage.Closure

variable {k : Kind} {limit : Nat}

/-! ## The search -/

/-- The sum of two depths, unless it exceeds the limit. -/
def sumWithin (limit : Nat) (a b : UInt32) : Option UInt32 :=
  if a.toNat + b.toNat ≤ limit then some (a + b) else none

/-- Give a node the depth after another one and a place in the queue, unless it has a depth. -/
def discoverWithin (limit : Nat) (depth : UInt32)
    (s : Table (NodeId k) UInt32 × List (NodeId k)) (y : NodeId k) :
    Option (Table (NodeId k) UInt32 × List (NodeId k)) :=
  if s.1.contains y then some s
  else do
    let next ← sumWithin limit depth 1
    return (s.1.insert y next, s.2 ++ [y])

/-- The depths and the queue after `x` was taken off it. -/
def expandWithin (limit : Nat) (es : List (NodeId k × NodeId k)) (x : NodeId k)
    (seen : Table (NodeId k) UInt32) (queue : List (NodeId k)) :
    Option (Table (NodeId k) UInt32 × List (NodeId k)) :=
  (childrenOf es x).foldlM (discoverWithin limit ((seen.get? x).getD 0)) (seen, queue)

/-- Take nodes off the queue until it is empty, at most `turns` of them. -/
def drainWithin (limit : Nat) (es : List (NodeId k × NodeId k)) : (turns : Nat) →
    (seen : Table (NodeId k) UInt32) → (queue : List (NodeId k)) → Option (Table (NodeId k) UInt32)
  | 0, seen, _ => some seen
  | _ + 1, seen, [] => some seen
  | turns + 1, seen, x :: queue => do
    let s ← expandWithin limit es x seen queue
    drainWithin limit es turns s.1 s.2

/-- The depths that the search from `root` gives. -/
def searchedWithin (limit : Nat) (es : List (NodeId k × NodeId k)) (root : NodeId k) :
    Option (Table (NodeId k) UInt32) :=
  drainWithin limit es (es.length + 1) ((∅ : Table (NodeId k) UInt32).insert root 0) [root]

/-- The closure of rows, each of its roots searched with a queue. -/
def closureWithin (limit : Nat) (rows : List (Path k)) : Option (DepthMap k) := do
  let found ← (nodes rows).keys.mapM fun root => do
    let depths ← searchedWithin limit (edges rows) root
    return depths.entries.map fun e => ((root, e.1), e.2)
  return Table.ofList found.flatten

/-! ## One turn -/

section Turn

variable {es : List (NodeId k × NodeId k)} {E : NodeId k → NodeId k → Prop}
  {S : NodeId k → Prop} {n turns : Nat} {seen : Table (NodeId k) UInt32}
  {cur next queue children : List (NodeId k)} {x root : NodeId k} {depth : UInt32}

theorem sumWithin_eq {a b : UInt32} (h : a.toNat + b.toNat ≤ limit) :
    sumWithin limit a b = some (a + b) := if_pos h

/-- A sum is formed only if there is a child without a depth. -/
theorem foldlM_discoverWithin
    (h : ∀ y ∈ children, seen.get? y = none → depth.toNat + 1 ≤ limit) :
    children.foldlM (discoverWithin limit depth) (seen, queue) =
      some (children.foldl (discover (depth + 1)) (seen, queue)) := by
  induction children generalizing seen queue with
  | nil => rfl
  | cons z rest ih =>
    rw [List.foldlM_cons, List.foldl_cons, discoverWithin, discover]
    split
    case isTrue => exact ih fun y hy => h y (List.mem_cons_of_mem z hy)
    case isFalse hz =>
      have hle := h z List.mem_cons_self (Table.not_contains_iff.1 (Bool.not_eq_true _ ▸ hz))
      rw [sumWithin_eq hle]
      exact ih fun _ _ _ => hle

/-- A node without a depth below the head of the queue lies one level below it. -/
theorem Queued.expandWithin_eq (hE : ∀ x y, (x, y) ∈ es ↔ E x y)
    (hlimit : ∀ m y, Level E S m y → m ≤ limit) (h : Queued E S n seen (x :: cur) next) :
    expandWithin limit es x seen queue = some (Closure.expand es x seen queue) := by
  refine foldlM_discoverWithin fun y hy hnone => ?_
  have hdepth : seen.get? x = some (UInt32.ofNat n) :=
    (h.seen_iff x _).2 (.inl ⟨n, Nat.le_refl n, h.level x List.mem_cons_self, rfl⟩)
  have hchild : E x y := (hE x y).1 (mem_childrenOf.1 hy)
  have hmod : (UInt32.ofNat n).toNat ≤ n := Nat.mod_le n _
  rw [hdepth, Option.getD_some]
  exact (Nat.succ_le_succ hmod).trans (hlimit _ _ (h.level_of_unseen hchild hnone))

/-! ## The whole search -/

theorem drainWithin_eq (hE : ∀ x y, (x, y) ∈ es ↔ E x y)
    (hlimit : ∀ m y, Level E S m y → m ≤ limit) (h : Queued E S n seen cur next) :
    drainWithin limit es turns seen (cur ++ next) = some (drain es turns seen (cur ++ next)) := by
  induction turns generalizing n seen cur next with
  | zero => rfl
  | succ turns ih =>
    cases hqueue : cur ++ next with
    | nil => rfl
    | cons x queue =>
      obtain ⟨n', cur', next', rfl, h'⟩ := h.uncons hqueue
      obtain ⟨fresh, hexpand, -, -, hnext⟩ := h'.expand hE
      rw [drainWithin, h'.expandWithin_eq hE hlimit, drain, hexpand]
      exact ih hnext

theorem searchedWithin_eq (hE : ∀ x y, (x, y) ∈ es ↔ E x y)
    (hlimit : ∀ m y, IsDistance E m root y → m ≤ limit) :
    searchedWithin limit es root = some (searched es root) :=
  drainWithin_eq hE (fun m y hy => hlimit m y (level_root_iff.1 hy)) (queued_start E root)

theorem mapM_eq_some {α β : Type} {f : α → Option β} {g : α → β} {xs : List α}
    (h : ∀ x ∈ xs, f x = some (g x)) : xs.mapM f = some (xs.map g) := by
  induction xs with
  | nil => rfl
  | cons x rest ih =>
    rw [List.mapM_cons, h x List.mem_cons_self, ih fun y hy => h y (List.mem_cons_of_mem x hy)]
    rfl

/-- If no two nodes are further apart than the limit, no sum exceeds it. -/
theorem closureWithin_eq {rows : List (Path k)}
    (hlimit : ∀ x ∈ (nodes rows).keys, ∀ m y, IsDistance (Edge rows) m x y → m ≤ limit) :
    closureWithin limit rows = some (transitiveClosure rows) := by
  have hfound : ∀ root ∈ (nodes rows).keys, (do
      let depths ← searchedWithin limit (edges rows) root
      return depths.entries.map fun e => ((root, e.1), e.2)) =
        some ((searched (edges rows) root).entries.map fun e => ((root, e.1), e.2)) := by
    intro root hroot
    rw [searchedWithin_eq (fun _ _ => mem_edges) (hlimit root hroot)]
    rfl
  rw [closureWithin, mapM_eq_some hfound, ← searchedClosure_eq, searchedClosure, List.flatMap_def]
  rfl

end Turn

end Lineage.Closure
