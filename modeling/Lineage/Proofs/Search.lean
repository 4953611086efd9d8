import Lineage.Proofs.Closure

/-!
# Searching with a queue

`searched es root` gives nodes their depths one node after the other: the head of a queue gives a
depth, one more than its own, to those of its children that have none, and they go to the end of
the queue in the order of their edges.

At any time the queue is what is left of one level, followed by a part of the next level
(`Queued`). The search gives the same depths as the one level by level (`searched_eq_distances`),
whatever the order of the edges, and so the same closure (`searchedClosure_eq`).
-/

namespace Lineage.Closure

variable {k : Kind}

/-! ## The search -/

/-- The nodes one edge below `x`, in the order of the edges. -/
def childrenOf (es : List (NodeId k × NodeId k)) (x : NodeId k) : List (NodeId k) :=
  (es.filter fun e => e.1 == x).map (·.2)

/-- Give a node a depth and a place in the queue, unless it has a depth. -/
def discover (depth : UInt32) (s : Table (NodeId k) UInt32 × List (NodeId k)) (y : NodeId k) :
    Table (NodeId k) UInt32 × List (NodeId k) :=
  if s.1.contains y then s else (s.1.insert y depth, s.2 ++ [y])

/-- The depths and the queue after `x` was taken off it. -/
def expand (es : List (NodeId k × NodeId k)) (x : NodeId k) (seen : Table (NodeId k) UInt32)
    (queue : List (NodeId k)) : Table (NodeId k) UInt32 × List (NodeId k) :=
  (childrenOf es x).foldl (discover ((seen.get? x).getD 0 + 1)) (seen, queue)

/-- Take nodes off the queue until it is empty, at most `turns` of them. -/
def drain (es : List (NodeId k × NodeId k)) : (turns : Nat) → (seen : Table (NodeId k) UInt32) →
    (queue : List (NodeId k)) → Table (NodeId k) UInt32
  | 0, seen, _ => seen
  | _ + 1, seen, [] => seen
  | turns + 1, seen, x :: queue =>
    drain es turns (expand es x seen queue).1 (expand es x seen queue).2

/-- The depths that the search from `root` gives. Each turn but the first uses up the edge by
which its node was discovered. -/
def searched (es : List (NodeId k × NodeId k)) (root : NodeId k) : Table (NodeId k) UInt32 :=
  drain es (es.length + 1) ((∅ : Table (NodeId k) UInt32).insert root 0) [root]

/-! ## One turn -/

section Turn

variable {es : List (NodeId k × NodeId k)} {seen : Table (NodeId k) UInt32}
  {queue : List (NodeId k)} {x y : NodeId k}

theorem mem_childrenOf : y ∈ childrenOf es x ↔ (x, y) ∈ es := by
  simp [childrenOf]

/-- The discovered ones among some nodes are those without a depth, each once. -/
theorem foldl_discover (children : List (NodeId k)) (depth : UInt32)
    (seen : Table (NodeId k) UInt32) (queue : List (NodeId k)) :
    ∃ fresh : List (NodeId k),
      children.foldl (discover depth) (seen, queue) =
        (fresh.foldl (fun s y => s.insert y depth) seen, queue ++ fresh) ∧
      fresh.Nodup ∧ ∀ y, y ∈ fresh ↔ y ∈ children ∧ seen.get? y = none := by
  induction children generalizing seen queue with
  | nil => exact ⟨[], by simp, .nil, by simp⟩
  | cons z rest ih =>
    rw [List.foldl_cons, discover]
    split
    case isTrue hz =>
      obtain ⟨fresh, hfold, hnodup, hfresh⟩ := ih seen queue
      refine ⟨fresh, hfold, hnodup, fun y => ?_⟩
      obtain ⟨d, hd⟩ := Table.contains_iff.1 hz
      rw [hfresh, List.mem_cons]
      constructor
      · exact fun h => ⟨.inr h.1, h.2⟩
      · rintro ⟨rfl | hy, hnone⟩
        · rw [hd] at hnone
          cases hnone
        · exact ⟨hy, hnone⟩
    case isFalse hz =>
      have hnone := Table.not_contains_iff.1 (Bool.not_eq_true _ ▸ hz)
      obtain ⟨fresh, hfold, hnodup, hfresh⟩ :=
        ih (seen.insert z depth) (queue ++ [z])
      simp only [Table.get?_insert] at hfresh
      refine ⟨z :: fresh, ?_, ?_, fun y => ?_⟩
      · rw [hfold, List.foldl_cons, List.append_assoc, List.singleton_append]
      · refine List.nodup_cons.2 ⟨fun hz => ?_, hnodup⟩
        have := (hfresh z).1 hz
        simp at this
      · rw [List.mem_cons, hfresh, List.mem_cons]
        by_cases hy : y = z
        · simp [hy, hnone]
        · simp [hy]

end Turn

/-! ## Levels in the queue -/

/-- The queue is what is left of level `n`, then the part of the next level that was discovered
from the rest of level `n`. -/
structure Queued (E : NodeId k → NodeId k → Prop) (S : NodeId k → Prop) (n : Nat)
    (seen : Table (NodeId k) UInt32) (cur next : List (NodeId k)) : Prop where
  seen_iff : ∀ y d, seen.get? y = some d ↔
    (∃ m ≤ n, Level E S m y ∧ d = UInt32.ofNat m) ∨ y ∈ next ∧ d = UInt32.ofNat (n + 1)
  level : ∀ x ∈ cur, Level E S n x
  next_level : ∀ y ∈ next, Level E S (n + 1) y
  expanded : ∀ x y, Level E S n x → x ∉ cur → E x y → ∃ d, seen.get? y = some d

section Search

variable {es : List (NodeId k × NodeId k)} {E : NodeId k → NodeId k → Prop}
  {S : NodeId k → Prop} {n : Nat} {seen : Table (NodeId k) UInt32}
  {cur next queue : List (NodeId k)} {x : NodeId k}

namespace Queued

/-- When a level is used up, all of the next one is in the queue. -/
theorem mem_next (h : Queued E S n seen [] next) {y : NodeId k} :
    y ∈ next ↔ Level E S (n + 1) y := by
  refine ⟨h.next_level y, fun hy => ?_⟩
  obtain ⟨x, hx, e⟩ := hy.exists_edge
  obtain ⟨d, hd⟩ := h.expanded x y hx (by simp) e
  rcases (h.seen_iff y d).1 hd with ⟨m, hm, hl, -⟩ | ⟨hnext, -⟩
  · have := hl.unique hy
    omega
  · exact hnext

theorem turn (h : Queued E S n seen [] next) : Queued E S (n + 1) seen next [] where
  seen_iff y d := by
    rw [h.seen_iff, h.mem_next]
    constructor
    · rintro (⟨m, hm, hl, e⟩ | ⟨hl, e⟩)
      · exact .inl ⟨m, by omega, hl, e⟩
      · exact .inl ⟨n + 1, Nat.le_refl _, hl, e⟩
    · rintro (⟨m, hm, hl, e⟩ | ⟨hnil, -⟩)
      · rcases Nat.lt_or_ge n m with hlt | hle
        · obtain rfl : m = n + 1 := by omega
          exact .inr ⟨hl, e⟩
        · exact .inl ⟨m, hle, hl, e⟩
      · cases hnil
  level := h.next_level
  next_level y hy := by cases hy
  expanded x y hx hout := absurd (h.mem_next.2 hx) hout

/-- The head of the queue belongs to the current level, which may have to be the next one. -/
theorem uncons (h : Queued E S n seen cur next) (hqueue : cur ++ next = x :: queue) :
    ∃ n' cur' next', cur' ++ next' = queue ∧ Queued E S n' seen (x :: cur') next' := by
  cases cur with
  | nil =>
    obtain rfl : next = x :: queue := hqueue
    exact ⟨n + 1, queue, [], List.append_nil queue, h.turn⟩
  | cons z cur =>
    obtain ⟨rfl, rfl⟩ := List.cons.inj hqueue
    exact ⟨n, cur, next, rfl, h⟩

/-- A child of the head lies on the next level, unless it has a depth. -/
theorem level_of_unseen (h : Queued E S n seen (x :: cur) next) {y : NodeId k} (e : E x y)
    (hnone : seen.get? y = none) : Level E S (n + 1) y := by
  apply (h.level x List.mem_cons_self).snoc e
  intro m hm hl
  have hseen := (h.seen_iff y _).2 (.inl ⟨m, hm, hl, rfl⟩)
  rw [hnone] at hseen
  cases hseen

/-- The head may leave the queue once its children have depths. -/
theorem mark (h : Queued E S n seen (x :: cur) next) {fresh : List (NodeId k)}
    (hfresh : ∀ y, y ∈ fresh ↔ E x y ∧ seen.get? y = none) :
    Queued E S n (fresh.foldl (fun s y => s.insert y (UInt32.ofNat (n + 1))) seen) cur
      (next ++ fresh) := by
  have hlevel : ∀ y ∈ fresh, Level E S (n + 1) y := fun y hy =>
    h.level_of_unseen ((hfresh y).1 hy).1 ((hfresh y).1 hy).2
  constructor
  case seen_iff =>
    intro y d
    rw [get?_foldl_mark]
    split
    case isTrue hy =>
      constructor
      · rintro ⟨⟩
        exact .inr ⟨List.mem_append_right _ hy, rfl⟩
      · rintro (⟨m, hm, hl, -⟩ | ⟨-, rfl⟩)
        · have := hl.unique (hlevel y hy)
          omega
        · rfl
    case isFalse hy =>
      rw [h.seen_iff, List.mem_append, or_iff_left hy]
  case level => exact fun z hz => h.level z (List.mem_cons_of_mem _ hz)
  case next_level =>
    intro y hy
    exact (List.mem_append.1 hy).elim (h.next_level y) (hlevel y)
  case expanded =>
    intro z y hz hout e
    rw [get?_foldl_mark]
    split
    case isTrue => exact ⟨_, rfl⟩
    case isFalse hy =>
      by_cases hzx : z = x
      · -- The children of the head that are not new had depths before.
        subst hzx
        by_contra hnone
        apply hy
        rw [hfresh, Option.eq_none_iff_forall_ne_some, ← not_exists]
        exact ⟨e, hnone⟩
      · apply h.expanded z y hz _ e
        rw [List.mem_cons, not_or]
        exact ⟨hzx, hout⟩

/-- The node at the head gives depths to those children that are on the next level and have
none. -/
theorem expand (hE : ∀ x y, (x, y) ∈ es ↔ E x y) (h : Queued E S n seen (x :: cur) next) :
    ∃ fresh : List (NodeId k),
      Closure.expand es x seen (cur ++ next) =
        (fresh.foldl (fun s y => s.insert y (UInt32.ofNat (n + 1))) seen,
          cur ++ (next ++ fresh)) ∧
      fresh.Nodup ∧ (∀ y ∈ fresh, y ∈ unseen es seen) ∧
      Queued E S n (fresh.foldl (fun s y => s.insert y (UInt32.ofNat (n + 1))) seen) cur
        (next ++ fresh) := by
  have hdepth : seen.get? x = some (UInt32.ofNat n) :=
    (h.seen_iff x _).2 (.inl ⟨n, Nat.le_refl n, h.level x List.mem_cons_self, rfl⟩)
  obtain ⟨fresh, hfold, hnodup, hfresh⟩ :=
    foldl_discover (childrenOf es x) (UInt32.ofNat (n + 1)) seen (cur ++ next)
  simp only [mem_childrenOf, hE] at hfresh
  refine ⟨fresh, ?_, hnodup, fun y hy => ?_, h.mark hfresh⟩
  · rw [Closure.expand, hdepth, Option.getD_some, ← ofNat_succ, hfold, List.append_assoc]
  · obtain ⟨e, hnone⟩ := (hfresh y).1 hy
    exact mem_unseen.2 ⟨⟨x, (hE x y).2 e⟩, hnone⟩

/-- An empty queue means that the search is over. -/
theorem complete (h : Queued E S n seen [] []) (y : NodeId k) (d : UInt32) :
    seen.get? y = some d ↔ ∃ m, Level E S m y ∧ d = UInt32.ofNat m := by
  have hknows : Knows E S 0 n seen := by
    intro y d
    rw [h.seen_iff]
    simp only [List.not_mem_nil, false_and, or_false, Nat.zero_add]
  simpa only [Nat.zero_add] using
    hknows.complete (fun y hy => List.not_mem_nil (h.mem_next.2 hy)) y d

end Queued

/-- The search finds every node that can be reached, at its distance. A turn takes one node off
the queue, and those that it puts there are targets that were unseen. -/
theorem get?_drain (hE : ∀ x y, (x, y) ∈ es ↔ E x y) {turns : Nat}
    (h : Queued E S n seen cur next)
    (hturns : (cur ++ next).length + (unseen es seen).length ≤ turns) (y : NodeId k) (d : UInt32) :
    (drain es turns seen (cur ++ next)).get? y = some d ↔
      ∃ m, Level E S m y ∧ d = UInt32.ofNat m := by
  induction turns generalizing n seen cur next with
  | zero =>
    have hlength : (cur ++ next).length = 0 := by omega
    obtain ⟨rfl, rfl⟩ := List.append_eq_nil_iff.1 (List.length_eq_zero_iff.1 hlength)
    exact h.complete y d
  | succ turns ih =>
    cases hqueue : cur ++ next with
    | nil =>
      obtain ⟨rfl, rfl⟩ := List.append_eq_nil_iff.1 hqueue
      exact h.complete y d
    | cons x queue =>
      obtain ⟨n', cur', next', rfl, h'⟩ := h.uncons hqueue
      obtain ⟨fresh, hexpand, hnodup, hunseen, hnext⟩ := h'.expand hE
      have hle := length_add_unseen_mark (UInt32.ofNat (n' + 1)) hnodup hunseen
      rw [drain, hexpand]
      refine ih hnext ?_
      simp only [hqueue, List.length_cons, List.length_append] at hturns ⊢
      omega

end Search

/-- The search starts with its root. -/
theorem queued_start (E : NodeId k → NodeId k → Prop) (root : NodeId k) :
    Queued E (· = root) 0 ((∅ : Table (NodeId k) UInt32).insert root 0) [root] [] where
  seen_iff y d := by
    rw [knows_start (E := E) root y d]
    simp only [List.not_mem_nil, false_and, or_false, Nat.zero_add]
  level x hx := level_zero_iff.2 (List.mem_singleton.1 hx)
  next_level y hy := (List.not_mem_nil hy).elim
  expanded x y hx hout _ :=
    absurd (List.mem_singleton.2 ((level_zero_iff (S := (· = root))).1 hx)) hout

theorem get?_searched {es : List (NodeId k × NodeId k)} {E : NodeId k → NodeId k → Prop}
    (hE : ∀ x y, (x, y) ∈ es ↔ E x y) {root y : NodeId k} {d : UInt32} :
    (searched es root).get? y = some d ↔ ∃ n, IsDistance E n root y ∧ d = UInt32.ofNat n := by
  have hlength := length_unseen_le es ((∅ : Table (NodeId k) UInt32).insert root 0)
  refine (get?_drain hE (queued_start E root) ?_ y d).trans
    (exists_congr fun n => by rw [level_root_iff])
  simp only [List.append_nil, List.length_singleton]
  omega

/-- Both ways to search find the same distances. -/
theorem searched_eq_distances (es : List (NodeId k × NodeId k)) (root : NodeId k) :
    searched es root = distances es root := by
  refine Table.ext_get? fun y => Option.ext fun d => ?_
  rw [get?_searched (E := fun x y => (x, y) ∈ es) fun _ _ => Iff.rfl,
    get?_distances (E := fun x y => (x, y) ∈ es) fun _ _ => Iff.rfl]

/-- The closure of rows, each of its roots searched with a queue. -/
def searchedClosure (rows : List (Path k)) : DepthMap k :=
  Table.ofList ((nodes rows).keys.flatMap fun root =>
    (searched (edges rows) root).entries.map fun e => ((root, e.1), e.2))

theorem searchedClosure_eq (rows : List (Path k)) :
    searchedClosure rows = transitiveClosure rows := by
  unfold searchedClosure transitiveClosure
  simp only [searched_eq_distances]

end Lineage.Closure
