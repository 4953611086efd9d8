import Lineage.Closure
import Lineage.Proofs.Distance
import Lineage.Proofs.Table

/-!
# What the closure functions compute

`Edge rows x y` says that rows hold the direct edge from `x` to `y`.

* `get?_distances`, `get?_transitiveClosure`: the search level by level finds exactly the reachable
  nodes, each at its distance. A depth is a distance counted in 32 bits.
* `mem_linkCandidates`: the candidates of a new edge are the least sums of an upper and a lower row.
  `Reads` says which rows are read for them.
* `mem_stale`, `mem_missing`, `mem_redepth`: what a reconciliation lists. It lists nothing iff the
  rows are the closure (`isEmpty_reconcile_iff`).
-/

open Relation

namespace Lineage

variable {k : Kind}

/-! ## Rows of depth maps -/

namespace DepthMap

theorem mem_rows {m : DepthMap k} {p : Path k} : p ∈ m.rows ↔ m.get? p.pair = some p.depth := by
  rw [rows, List.mem_map, ← Table.mem_entries]
  constructor
  · rintro ⟨e, he, rfl⟩
    exact he
  · exact fun h => ⟨_, h, rfl⟩

theorem mk_mem_rows {m : DepthMap k} {x y : NodeId k} {d : UInt32} :
    ⟨x, y, d⟩ ∈ m.rows ↔ m.get? (x, y) = some d :=
  mem_rows

theorem nodup_rows (m : DepthMap k) : (m.rows.map Path.pair).Nodup := by
  rw [rows, List.map_map]
  exact m.nodup_keys

theorem get?_ofRows {rows : List (Path k)} (h : (rows.map Path.pair).Nodup) {p : Path k} :
    (ofRows rows).get? p.pair = some p.depth ↔ p ∈ rows := by
  rw [ofRows, Table.get?_ofList (by rwa [List.map_map]), List.mem_map]
  constructor
  · rintro ⟨q, hq, e⟩
    obtain rfl : q = p := by
      cases q; cases p
      simpa [Path.pair, and_assoc] using e
    exact hq
  · exact fun h => ⟨p, h, rfl⟩

/-- The depths of those rows that pass a test. -/
theorem get?_ofRows_filter {rows : List (Path k)} (h : (rows.map Path.pair).Nodup)
    {f : Path k → Bool} {q : NodeId k × NodeId k} :
    (ofRows (rows.filter f)).get? q = ((ofRows rows).get? q).filter fun d => f ⟨q.1, q.2, d⟩ := by
  have hf : ((rows.filter f).map Path.pair).Nodup := h.sublist (List.filter_sublist.map _)
  refine Option.ext fun d => ?_
  have hrows := get?_ofRows h (p := ⟨q.1, q.2, d⟩)
  have hfiltered := get?_ofRows hf (p := ⟨q.1, q.2, d⟩)
  rw [List.mem_filter, ← hrows] at hfiltered
  rw [Option.filter_eq_some_iff]
  exact hfiltered

theorem mem_map_pair {rows : List (Path k)} (h : (rows.map Path.pair).Nodup)
    {q : NodeId k × NodeId k} :
    q ∈ rows.map Path.pair ↔ ∃ d, (ofRows rows).get? q = some d := by
  rw [List.mem_map]
  constructor
  · rintro ⟨p, hp, rfl⟩
    exact ⟨p.depth, (get?_ofRows h).2 hp⟩
  · rintro ⟨d, hd⟩
    exact ⟨⟨q.1, q.2, d⟩, (get?_ofRows h).1 hd, rfl⟩

theorem mem_map_pair_filter {rows : List (Path k)} (h : (rows.map Path.pair).Nodup)
    {f : Path k → Bool} {q : NodeId k × NodeId k} :
    q ∈ (rows.filter f).map Path.pair ↔
      ∃ d, (ofRows rows).get? q = some d ∧ f ⟨q.1, q.2, d⟩ := by
  rw [mem_map_pair (h.sublist (List.filter_sublist.map _)), get?_ofRows_filter h]
  simp only [Option.filter_eq_some_iff]

@[simp] theorem ofRows_rows (m : DepthMap k) : ofRows m.rows = m := by
  refine Table.ext_get? fun q => Option.ext fun d => ?_
  exact (get?_ofRows (nodup_rows m) (p := ⟨q.1, q.2, d⟩)).trans mem_rows

theorem get?_ofRows_eq_none {rows : List (Path k)} (h : (rows.map Path.pair).Nodup)
    {q : NodeId k × NodeId k} : (ofRows rows).get? q = none ↔ q ∉ rows.map Path.pair := by
  rw [mem_map_pair h, ← Option.isSome_iff_exists, Bool.not_eq_true, Option.isSome_eq_false_iff,
    Option.isNone_iff_eq_none]

theorem not_mem_map_pair_rows {m : DepthMap k} {q : NodeId k × NodeId k} :
    q ∉ m.rows.map Path.pair ↔ m.get? q = none := by
  rw [← get?_ofRows_eq_none (nodup_rows m), ofRows_rows]

theorem get?_relax (m : DepthMap k) (pair : NodeId k × NodeId k) (depth : UInt32)
    (q : NodeId k × NodeId k) :
    (m.relax pair depth).get? q =
      if q = pair then some (((m.get? q).map (min · depth)).getD depth) else m.get? q := by
  unfold relax
  by_cases hq : q = pair
  · subst hq
    cases hm : m.get? q with
    | none => simp
    | some d =>
      simp only [Option.map_some, Option.getD_some, if_true, Std.min_eq_if]
      split
      case isTrue hlt => rw [Table.get?_insert_self, if_neg (UInt32.not_le.2 hlt)]
      case isFalse hle => rw [hm, if_pos (UInt32.not_lt.1 hle)]
  · have hsame : ∀ b, (m.insert pair b).get? q = m.get? q := fun b => by
      rw [Table.get?_insert, if_neg hq]
    split
    · split <;> simp [hsame]
    · simp [hsame, hq]

/-- The depths that a list holds for a pair. -/
def depthsOf (l : List ((NodeId k × NodeId k) × UInt32)) (q : NodeId k × NodeId k) : List UInt32 :=
  l.filterMap fun e => if e.1 = q then some e.2 else none

theorem get?_foldl_relax (l : List ((NodeId k × NodeId k) × UInt32)) (m : DepthMap k)
    (q : NodeId k × NodeId k) :
    (l.foldl (fun m e => m.relax e.1 e.2) m).get? q =
      ((m.get? q).toList ++ depthsOf l q).min? := by
  induction l generalizing m with
  | nil => cases h : m.get? q <;> simp [depthsOf, h]
  | cons e rest ih =>
    rw [List.foldl_cons, ih, get?_relax]
    by_cases he : q = e.1
    · subst he
      cases h : m.get? e.1 <;> simp [depthsOf, List.min?]
    · simp [depthsOf, he, Ne.symm he]

/-- Relaxing by a list leaves at each pair the least depth that the list holds for it. -/
theorem get?_relaxAll {l : List ((NodeId k × NodeId k) × UInt32)} {q : NodeId k × NodeId k}
    {d : UInt32} :
    (l.foldl (fun m e => m.relax e.1 e.2) (∅ : DepthMap k)).get? q = some d ↔
      (q, d) ∈ l ∧ ∀ e, (q, e) ∈ l → d ≤ e := by
  have hmem : ∀ e, e ∈ depthsOf l q ↔ (q, e) ∈ l := fun e => by
    simp [depthsOf, Prod.ext_iff]
  rw [get?_foldl_relax, Table.get?_empty, Option.toList_none, List.nil_append,
    List.min?_eq_some_iff, hmem]
  simp only [hmem]

end DepthMap

namespace Closure

/-! ## Linking -/

/-- The pair and the depth of an upper and a lower row on both sides of a new edge. -/
theorem mem_linkCandidates {upper lower : List (Path k)} {c : Path k} :
    c ∈ linkCandidates upper lower ↔
      (∃ up ∈ upper, ∃ down ∈ lower, up.ancestor = c.ancestor ∧
        down.descendant = c.descendant ∧ up.depth + 1 + down.depth = c.depth) ∧
      ∀ up ∈ upper, ∀ down ∈ lower, up.ancestor = c.ancestor →
        down.descendant = c.descendant → c.depth ≤ up.depth + 1 + down.depth := by
  unfold linkCandidates
  rw [DepthMap.mem_rows, DepthMap.get?_relaxAll]
  simp only [List.mem_flatMap, List.mem_map, Path.pair, Prod.mk.injEq]
  constructor
  · rintro ⟨⟨up, hup, down, hdown, ⟨ha, hd⟩, hc⟩, hle⟩
    exact ⟨⟨up, hup, down, hdown, ha, hd, hc⟩, fun up hup down hdown ha hd =>
      hle _ ⟨up, hup, down, hdown, ⟨ha, hd⟩, rfl⟩⟩
  · rintro ⟨⟨up, hup, down, hdown, ha, hd, hc⟩, hle⟩
    refine ⟨⟨up, hup, down, hdown, ⟨ha, hd⟩, hc⟩, ?_⟩
    rintro _ ⟨up, hup, down, hdown, ⟨ha, hd⟩, rfl⟩
    exact hle up hup down hdown ha hd

theorem nodup_linkCandidates (upper lower : List (Path k)) :
    ((linkCandidates upper lower).map Path.pair).Nodup :=
  DepthMap.nodup_rows _

/-- The rows that matter to an edge from `a` to `d`, each list in any order: those that end at `a`,
those that start at `d`, and those between the ends of both. -/
structure Reads (rows : List (Path k)) (a d : NodeId k) (upper lower existing : List (Path k)) :
    Prop where
  above : upper.Perm (rows.filter fun p => p.descendant == a)
  below : lower.Perm (rows.filter fun p => p.ancestor == d)
  between : existing.Perm (rows.filter fun p =>
    (upper.map (·.ancestor)).contains p.ancestor &&
      (lower.map (·.descendant)).contains p.descendant)

namespace Reads

variable {rows upper lower existing : List (Path k)} {a d x y : NodeId k}
  (hr : Reads rows a d upper lower existing) (hnodup : (rows.map Path.pair).Nodup)

include hr hnodup

theorem mem_upper {up : Path k} : up ∈ upper ↔
    (DepthMap.ofRows rows).get? (up.ancestor, up.descendant) = some up.depth ∧
      up.descendant = a := by
  have hget := DepthMap.get?_ofRows hnodup (p := up)
  rw [hr.above.mem_iff, List.mem_filter, ← hget, beq_iff_eq, Path.pair]

theorem mem_lower {down : Path k} : down ∈ lower ↔
    (DepthMap.ofRows rows).get? (down.ancestor, down.descendant) = some down.depth ∧
      down.ancestor = d := by
  have hget := DepthMap.get?_ofRows hnodup (p := down)
  rw [hr.below.mem_iff, List.mem_filter, ← hget, beq_iff_eq, Path.pair]

/-- The candidate of a pair leads over the new edge. -/
theorem get?_linkCandidates : (DepthMap.ofRows (linkCandidates upper lower)).get? (x, y) =
    ((DepthMap.ofRows rows).get? (x, a)).bind fun u =>
      ((DepthMap.ofRows rows).get? (d, y)).map fun w => u + 1 + w := by
  refine Option.ext fun c => (DepthMap.get?_ofRows (nodup_linkCandidates _ _)
    (p := ⟨x, y, c⟩)).trans (mem_linkCandidates.trans ?_)
  simp only [hr.mem_upper hnodup, hr.mem_lower hnodup, Option.bind_eq_some_iff,
    Option.map_eq_some_iff]
  constructor
  · rintro ⟨⟨⟨_, _, u⟩, ⟨hu, rfl⟩, ⟨_, _, w⟩, ⟨hw, rfl⟩, rfl, rfl, rfl⟩, -⟩
    exact ⟨u, hu, w, hw, rfl⟩
  · rintro ⟨u, hu, w, hw, rfl⟩
    refine ⟨⟨⟨x, a, u⟩, ⟨hu, rfl⟩, ⟨d, y, w⟩, ⟨hw, rfl⟩, rfl, rfl, rfl⟩, ?_⟩
    rintro ⟨_, _, u'⟩ ⟨hu', rfl⟩ ⟨_, _, w'⟩ ⟨hw', rfl⟩ rfl rfl
    obtain rfl : u = u' := Option.some.inj (hu.symm.trans hu')
    obtain rfl : w = w' := Option.some.inj (hw.symm.trans hw')
    exact UInt32.le_refl _

/-- The rows between the ends include those of all candidates. -/
theorem get?_existing {c : Path k} (hc : c ∈ linkCandidates upper lower) :
    (DepthMap.ofRows existing).get? c.pair = (DepthMap.ofRows rows).get? c.pair := by
  obtain ⟨⟨up, hup, down, hdown, ha, hd, -⟩, -⟩ := mem_linkCandidates.1 hc
  have hupper : (upper.map (·.ancestor)).contains c.ancestor :=
    List.contains_iff_mem.2 (List.mem_map.2 ⟨up, hup, ha⟩)
  have hlower : (lower.map (·.descendant)).contains c.descendant :=
    List.contains_iff_mem.2 (List.mem_map.2 ⟨down, hdown, hd⟩)
  have hbetween : (existing.map Path.pair).Nodup :=
    (hr.between.map _).nodup_iff.2 (hnodup.sublist (List.filter_sublist.map _))
  refine Option.ext fun depth => ?_
  have hleft := DepthMap.get?_ofRows hbetween (p := ⟨c.ancestor, c.descendant, depth⟩)
  have hright := DepthMap.get?_ofRows hnodup (p := ⟨c.ancestor, c.descendant, depth⟩)
  rw [hr.between.mem_iff, List.mem_filter, ← hright] at hleft
  simp only [hupper, hlower, Bool.and_self, and_true] at hleft
  exact hleft

end Reads

/-! ## Edges and nodes -/

/-- Whether rows hold a direct edge. -/
def Edge (rows : List (Path k)) (x y : NodeId k) : Prop := Path.direct x y ∈ rows

theorem mem_edges {rows : List (Path k)} {x y : NodeId k} :
    (x, y) ∈ edges rows ↔ Edge rows x y := by
  simp only [edges, List.mem_map, List.mem_filter, Edge]
  constructor
  · rintro ⟨⟨a, d, n⟩, ⟨hp, hn⟩, e⟩
    obtain ⟨rfl, rfl⟩ : a = x ∧ d = y := by simpa [Path.pair] using e
    obtain rfl : n = 1 := by simpa [Path.isDirect] using hn
    exact hp
  · exact fun h => ⟨_, ⟨h, rfl⟩, rfl⟩

/-- The nodes of rows own a row of depth 0 or are the end of a direct edge. -/
theorem mem_nodes {rows : List (Path k)} {x : NodeId k} :
    x ∈ (nodes rows).keys ↔
      (∃ y, ⟨x, y, 0⟩ ∈ rows) ∨ (∃ y, Edge rows x y) ∨ ∃ y, Edge rows y x := by
  rw [nodes, KeySet.mem_keys_ofList, List.mem_flatMap]
  constructor
  · rintro ⟨⟨a, d, n⟩, hp, hx⟩
    split at hx
    case isTrue h0 =>
      obtain rfl : n = 0 := by simpa [Path.isSelf] using h0
      obtain rfl : x = a := by simpa using hx
      exact .inl ⟨d, hp⟩
    case isFalse =>
      split at hx
      case isTrue h1 =>
        obtain rfl : n = 1 := by simpa [Path.isDirect] using h1
        obtain rfl | rfl : x = a ∨ x = d := by simpa using hx
        · exact .inr (.inl ⟨d, hp⟩)
        · exact .inr (.inr ⟨a, hp⟩)
      case isFalse => simp at hx
  · rintro (⟨y, h⟩ | ⟨y, h⟩ | ⟨y, h⟩)
    · exact ⟨_, h, by simp [Path.isSelf]⟩
    · exact ⟨_, h, by simp [Path.isSelf, Path.isDirect, Path.direct]⟩
    · exact ⟨_, h, by simp [Path.isSelf, Path.isDirect, Path.direct]⟩

/-! ## The search -/

/-- The node is `n` edges away from the nearest of the nodes in `S`. -/
def Level (E : NodeId k → NodeId k → Prop) (S : NodeId k → Prop) (n : Nat) (y : NodeId k) : Prop :=
  (∃ s, S s ∧ Walk E n s y) ∧ ∀ s m, S s → Walk E m s y → n ≤ m

section Level

variable {E : NodeId k → NodeId k → Prop} {S : NodeId k → Prop} {n m : Nat} {x y s : NodeId k}

theorem Level.unique (h : Level E S n y) (h' : Level E S m y) : n = m := by
  obtain ⟨s, hs, hw⟩ := h.1
  obtain ⟨s', hs', hw'⟩ := h'.1
  exact Nat.le_antisymm (h.2 s' m hs' hw') (h'.2 s n hs hw)

theorem level_zero_iff : Level E S 0 y ↔ S y := by
  refine ⟨fun ⟨⟨s, hs, hw⟩, _⟩ => Walk.zero_iff.1 hw ▸ hs, fun h => ?_⟩
  exact ⟨⟨y, h, .nil y⟩, fun _ _ _ _ => Nat.zero_le _⟩

theorem level_root_iff {root : NodeId k} : Level E (· = root) n y ↔ IsDistance E n root y := by
  constructor
  · rintro ⟨⟨s, rfl, hw⟩, hmin⟩
    exact ⟨hw, fun m => hmin s m rfl⟩
  · rintro ⟨hw, hmin⟩
    exact ⟨⟨root, rfl, hw⟩, fun s m hs => hs ▸ hmin m⟩

theorem exists_level (hs : S s) (h : Walk E n s y) : ∃ m ≤ n, Level E S m y := by
  classical
  have hex : ∃ m s, S s ∧ Walk E m s y := ⟨n, s, hs, h⟩
  refine ⟨Nat.find hex, Nat.find_min' hex ⟨s, hs, h⟩, Nat.find_spec hex, fun s m hs h => ?_⟩
  exact Nat.find_min' hex ⟨s, hs, h⟩

/-- A level lies one edge below the one before. -/
theorem Level.exists_edge (h : Level E S (n + 1) y) : ∃ x, Level E S n x ∧ E x y := by
  obtain ⟨⟨s, hs, hw⟩, hmin⟩ := h
  obtain ⟨x, hw, e⟩ := Walk.succ_iff.1 hw
  refine ⟨x, ⟨⟨s, hs, hw⟩, fun s m hs hm => ?_⟩, e⟩
  have := hmin s (m + 1) hs (hm.snoc e)
  omega

theorem Level.snoc (h : Level E S n x) (e : E x y) (hnew : ∀ m ≤ n, ¬ Level E S m y) :
    Level E S (n + 1) y := by
  obtain ⟨⟨s, hs, hw⟩, -⟩ := h
  refine ⟨⟨s, hs, hw.snoc e⟩, fun s m hs hm => ?_⟩
  by_contra hlt
  obtain ⟨m', hle, hm'⟩ := exists_level hs hm
  exact hnew m' (by omega) hm'

theorem Level.of_le (h : Level E S n y) (hle : m ≤ n) : ∃ x, Level E S m x := by
  induction n generalizing y with
  | zero => exact ⟨y, by obtain rfl : m = 0 := by omega
                         exact h⟩
  | succ n ih =>
    rcases Nat.lt_or_ge n m with hlt | hle
    · obtain rfl : m = n + 1 := by omega
      exact ⟨y, h⟩
    · obtain ⟨x, hx, -⟩ := h.exists_edge
      exact ih hx hle

end Level

theorem mem_nextFrontier {es : List (NodeId k × NodeId k)} {seen : Table (NodeId k) UInt32}
    {frontier : List (NodeId k)} {y : NodeId k} :
    y ∈ nextFrontier es seen frontier ↔
      (∃ x ∈ frontier, (x, y) ∈ es) ∧ seen.get? y = none := by
  rw [nextFrontier, List.mem_filter, KeySet.mem_keys_ofList, Bool.not_eq_true',
    Table.not_contains_iff]
  simp only [List.mem_map, List.mem_filter, List.contains_iff_mem]
  exact and_congr_left' ⟨fun ⟨⟨x, _⟩, ⟨he, hx⟩, e⟩ => ⟨x, hx, e ▸ he⟩,
    fun ⟨x, hx, he⟩ => ⟨(x, y), ⟨he, hx⟩, rfl⟩⟩

theorem nodup_nextFrontier {es : List (NodeId k × NodeId k)} {seen : Table (NodeId k) UInt32}
    {frontier : List (NodeId k)} : (nextFrontier es seen frontier).Nodup :=
  (Table.nodup_keys _).filter _

theorem get?_foldl_mark (fresh : List (NodeId k)) (depth : UInt32) (seen : Table (NodeId k) UInt32)
    (y : NodeId k) :
    (fresh.foldl (fun s y => s.insert y depth) seen).get? y =
      if y ∈ fresh then some depth else seen.get? y := by
  induction fresh generalizing seen with
  | nil => simp
  | cons a rest ih =>
    rw [List.foldl_cons, ih, Table.get?_insert]
    by_cases h : y = a <;> simp [h]

/-- The edge targets that a search has not come to, with repetitions. -/
def unseen (es : List (NodeId k × NodeId k)) (seen : Table (NodeId k) UInt32) : List (NodeId k) :=
  (es.map (·.2)).filter fun y => !seen.contains y

theorem mem_unseen {es : List (NodeId k × NodeId k)} {seen : Table (NodeId k) UInt32}
    {y : NodeId k} : y ∈ unseen es seen ↔ (∃ x, (x, y) ∈ es) ∧ seen.get? y = none := by
  rw [unseen, List.mem_filter, Bool.not_eq_true', Table.not_contains_iff]
  simp

theorem mem_unseen_of_mem_nextFrontier {es : List (NodeId k × NodeId k)}
    {seen : Table (NodeId k) UInt32} {frontier : List (NodeId k)} {y : NodeId k}
    (h : y ∈ nextFrontier es seen frontier) : y ∈ unseen es seen := by
  obtain ⟨⟨x, -, he⟩, hnone⟩ := mem_nextFrontier.1 h
  exact mem_unseen.2 ⟨⟨x, he⟩, hnone⟩

theorem unseen_mark (es : List (NodeId k × NodeId k)) (seen : Table (NodeId k) UInt32)
    (fresh : List (NodeId k)) (depth : UInt32) :
    unseen es (fresh.foldl (fun s y => s.insert y depth) seen) =
      (unseen es seen).filter fun y => !fresh.contains y := by
  rw [unseen, unseen, List.filter_filter]
  refine List.filter_congr fun z _ => ?_
  rw [Table.contains_eq, Table.contains_eq, get?_foldl_mark]
  by_cases h : z ∈ fresh <;> simp [h]

/-- Targets that get a depth are no longer unseen. -/
theorem length_add_unseen_mark {es : List (NodeId k × NodeId k)} {seen : Table (NodeId k) UInt32}
    {fresh : List (NodeId k)} (depth : UInt32) (hnodup : fresh.Nodup)
    (hfresh : ∀ y ∈ fresh, y ∈ unseen es seen) :
    fresh.length + (unseen es (fresh.foldl (fun s y => s.insert y depth) seen)).length ≤
      (unseen es seen).length := by
  have hsub : fresh ⊆ (unseen es seen).filter fun y => fresh.contains y := fun y hy =>
    List.mem_filter.2 ⟨hfresh y hy, List.contains_iff_mem.2 hy⟩
  have hle := (hnodup.subperm hsub).length_le
  have hsplit := (unseen es seen).length_eq_length_filter_add fun y => fresh.contains y
  rw [unseen_mark]
  omega

theorem ofNat_succ (n : Nat) : UInt32.ofNat (n + 1) = UInt32.ofNat n + 1 := by
  rw [UInt32.ofNat_add]
  rfl

/-- What the search knows once it has come to the nodes within `n` edges of `S`, counting from
`base`. -/
def Knows (E : NodeId k → NodeId k → Prop) (S : NodeId k → Prop) (base n : Nat)
    (seen : Table (NodeId k) UInt32) : Prop :=
  ∀ y d, seen.get? y = some d ↔ ∃ m ≤ n, Level E S m y ∧ d = UInt32.ofNat (base + m)

section Search

variable {es : List (NodeId k × NodeId k)} {E : NodeId k → NodeId k → Prop}
  {S : NodeId k → Prop} {base n : Nat} {seen : Table (NodeId k) UInt32}
  {frontier : List (NodeId k)}

theorem Knows.get?_eq_none (h : Knows E S base n seen) {y : NodeId k} :
    seen.get? y = none ↔ ∀ m ≤ n, ¬ Level E S m y := by
  rw [Option.eq_none_iff_forall_ne_some]
  refine ⟨fun hn m hm hl => hn _ ((h y _).2 ⟨m, hm, hl, rfl⟩), fun hn d hd => ?_⟩
  obtain ⟨m, hm, hl, -⟩ := (h y d).1 hd
  exact hn m hm hl

/-- The next frontier is the next level. -/
theorem Knows.mem_nextFrontier (h : Knows E S base n seen) (hE : ∀ x y, (x, y) ∈ es ↔ E x y)
    (hf : ∀ y, y ∈ frontier ↔ Level E S n y) {y : NodeId k} :
    y ∈ nextFrontier es seen frontier ↔ Level E S (n + 1) y := by
  rw [Closure.mem_nextFrontier, h.get?_eq_none]
  constructor
  · rintro ⟨⟨x, hx, he⟩, hnew⟩
    exact ((hf x).1 hx).snoc ((hE x y).1 he) hnew
  · intro hl
    obtain ⟨x, hx, e⟩ := hl.exists_edge
    refine ⟨⟨x, (hf x).2 hx, (hE x y).2 e⟩, fun m hm hm' => ?_⟩
    have := hl.unique hm'
    omega

theorem Knows.mark (h : Knows E S base n seen) {fresh : List (NodeId k)}
    (hf : ∀ y, y ∈ fresh ↔ Level E S (n + 1) y) :
    Knows E S base (n + 1)
      (fresh.foldl (fun s y => s.insert y (UInt32.ofNat (base + n) + 1)) seen) := by
  intro y d
  rw [get?_foldl_mark, ← ofNat_succ]
  split
  case isTrue hy =>
    have hl := (hf y).1 hy
    constructor
    · rintro ⟨⟩
      exact ⟨n + 1, Nat.le_refl _, hl, rfl⟩
    · rintro ⟨m, -, hm, rfl⟩
      rw [hm.unique hl, Nat.add_assoc]
  case isFalse hy =>
    rw [h y d]
    constructor
    · rintro ⟨m, hm, hl, rfl⟩
      exact ⟨m, Nat.le_succ_of_le hm, hl, rfl⟩
    · rintro ⟨m, hm, hl, rfl⟩
      rcases Nat.lt_or_ge n m with hlt | hle
      · obtain rfl : m = n + 1 := by omega
        exact absurd ((hf y).2 hl) hy
      · exact ⟨m, hle, hl, rfl⟩

/-- Without a next level the search knows all levels. -/
theorem Knows.complete (h : Knows E S base n seen) (hend : ∀ y, ¬ Level E S (n + 1) y)
    (y : NodeId k) (d : UInt32) :
    seen.get? y = some d ↔ ∃ m, Level E S m y ∧ d = UInt32.ofNat (base + m) := by
  rw [h y d]
  refine ⟨fun ⟨m, _, hl, e⟩ => ⟨m, hl, e⟩, fun ⟨m, hl, e⟩ => ⟨m, ?_, hl, e⟩⟩
  by_contra hlt
  obtain ⟨x, hx⟩ := hl.of_le (m := n + 1) (by omega)
  exact hend x hx

/-- The search finds every node that can be reached, at its distance. A level that is not the last
takes at least one target off the unseen ones, so that there are levels enough. -/
theorem get?_spread (hE : ∀ x y, (x, y) ∈ es ↔ E x y) {levels : Nat}
    (h : Knows E S base n seen) (hf : ∀ y, y ∈ frontier ↔ Level E S n y)
    (hlevels : (unseen es seen).length ≤ levels) (y : NodeId k) (d : UInt32) :
    (spread es levels (UInt32.ofNat (base + n)) frontier seen).get? y = some d ↔
      ∃ m, Level E S m y ∧ d = UInt32.ofNat (base + m) := by
  induction levels generalizing n frontier seen with
  | zero =>
    refine h.complete (fun y hy => ?_) y d
    have hmem := mem_unseen_of_mem_nextFrontier ((h.mem_nextFrontier hE hf).2 hy)
    rw [List.length_eq_zero_iff.1 (Nat.le_zero.1 hlevels)] at hmem
    simp at hmem
  | succ levels ih =>
    unfold spread
    split
    case h_1 hnil =>
      refine h.complete (fun y hy => ?_) y d
      have hmem := (h.mem_nextFrontier hE hf).2 hy
      simp [hnil] at hmem
    case h_2 hne =>
      have hpos := List.length_pos_iff.2 hne
      rw [← ofNat_succ]
      have hle := length_add_unseen_mark (UInt32.ofNat (base + n + 1))
        nodup_nextFrontier fun z (hz : z ∈ nextFrontier es seen frontier) =>
          mem_unseen_of_mem_nextFrontier hz
      have hnext := fun y => h.mem_nextFrontier hE hf (y := y)
      have hknows := h.mark hnext
      rw [← ofNat_succ] at hknows
      exact ih hknows hnext (by omega)

theorem knows_start (root : NodeId k) :
    Knows E (· = root) 0 0 ((∅ : Table (NodeId k) UInt32).insert root 0) := by
  intro y d
  rw [Table.get?_insert, Table.get?_empty]
  constructor
  · intro h
    split at h
    case isTrue hy => exact ⟨0, Nat.le_refl 0, level_zero_iff.2 hy, (Option.some.inj h).symm⟩
    case isFalse => exact absurd h (by simp)
  · rintro ⟨m, hm, hl, rfl⟩
    obtain rfl := Nat.le_zero.1 hm
    rw [if_pos (level_zero_iff.1 hl)]
    rfl

theorem length_unseen_le (es : List (NodeId k × NodeId k)) (seen : Table (NodeId k) UInt32) :
    (unseen es seen).length ≤ es.length := by
  simpa [unseen] using List.length_filter_le _ (es.map (·.2))

/-- The search from a root finds each reachable node at its distance. -/
theorem get?_distances (hE : ∀ x y, (x, y) ∈ es ↔ E x y) {root y : NodeId k} {d : UInt32} :
    (distances es root).get? y = some d ↔ ∃ n, IsDistance E n root y ∧ d = UInt32.ofNat n := by
  have hroot : ∀ y, y ∈ [root] ↔ Level E (· = root) 0 y := fun y => by simp [level_zero_iff]
  refine (get?_spread hE (knows_start root) hroot (length_unseen_le es _) y d).trans
    (exists_congr fun n => ?_)
  rw [level_root_iff, Nat.zero_add]

end Search

/-- The closure of rows holds each pair of their nodes that edges connect, at its distance. -/
theorem get?_transitiveClosure {rows : List (Path k)} {x y : NodeId k} {d : UInt32} :
    (transitiveClosure rows).get? (x, y) = some d ↔
      x ∈ (nodes rows).keys ∧ ∃ n, IsDistance (Edge rows) n x y ∧ d = UInt32.ofNat n := by
  have hnodup : (((nodes rows).keys.flatMap fun root =>
      (distances (edges rows) root).entries.map fun e => ((root, e.1), e.2)).map (·.1)).Nodup := by
    rw [List.map_flatMap, List.nodup_flatMap]
    constructor
    · intro root _
      rw [List.map_map]
      have hinj : Function.Injective (Prod.mk root : NodeId k → _) := Prod.mk_right_injective root
      simpa [Table.keys, Function.comp_def] using (Table.nodup_keys _).map hinj
    · refine (nodes rows).nodup_keys.imp fun hne => ?_
      simp only [Function.onFun, List.disjoint_left, List.mem_map]
      rintro _ ⟨_, ⟨e, -, rfl⟩, rfl⟩ ⟨_, ⟨f, -, rfl⟩, h⟩
      exact hne (congrArg Prod.fst h).symm
  rw [transitiveClosure, Table.get?_ofList hnodup, List.mem_flatMap]
  constructor
  · rintro ⟨root, hroot, h⟩
    obtain ⟨e, he, h⟩ := List.mem_map.1 h
    obtain ⟨⟨rfl, rfl⟩, rfl⟩ : (root = x ∧ e.1 = y) ∧ e.2 = d := by simpa using h
    exact ⟨hroot, (get?_distances fun _ _ => mem_edges).1 (Table.mem_entries.1 he)⟩
  · rintro ⟨hx, h⟩
    exact ⟨x, hx, List.mem_map.2 ⟨(y, d),
      Table.mem_entries.2 ((get?_distances fun _ _ => mem_edges).2 h), rfl⟩⟩

/-! ## Repair -/

section Repair

variable {rows : List (Path k)} {p : Path k}

theorem mem_stale : p ∈ (reconcile rows).stale ↔
    p ∈ rows ∧ (transitiveClosure rows).get? p.pair = none := by
  rw [reconcile, List.mem_filter, Bool.not_eq_true', Table.not_contains_iff]

theorem mem_missing : p ∈ (reconcile rows).missing ↔
    (transitiveClosure rows).get? p.pair = some p.depth ∧ p.pair ∉ rows.map Path.pair := by
  rw [reconcile, DepthMap.mem_rows, Table.get?_filter, Option.filter_eq_some_iff,
    Bool.not_eq_true', ← Bool.not_eq_true, KeySet.contains_ofList]

theorem mem_redepth : p ∈ (reconcile rows).redepth ↔
    (transitiveClosure rows).get? p.pair = some p.depth ∧
      ∃ q ∈ rows, q.pair = p.pair ∧ p.depth ≠ q.depth := by
  simp only [reconcile, List.mem_filterMap]
  constructor
  · rintro ⟨q, hq, h⟩
    split at h
    case h_1 d hd =>
      split at h
      case isTrue => simp at h
      case isFalse hne =>
        obtain rfl := Option.some.inj h
        exact ⟨hd, q, hq, rfl, hne⟩
    case h_2 => simp at h
  · rintro ⟨hp, q, hq, e, hne⟩
    refine ⟨q, hq, ?_⟩
    rw [e, hp]
    obtain ⟨ha, hd⟩ := Prod.mk.inj e
    simp only [if_neg hne, ha, hd]

theorem nodup_missing (rows : List (Path k)) : ((reconcile rows).missing.map Path.pair).Nodup :=
  DepthMap.nodup_rows _

/-- Rows need no repair iff they are the closure of their edges. -/
theorem isEmpty_reconcile_iff (hnodup : (rows.map Path.pair).Nodup) :
    (reconcile rows).isEmpty ↔ transitiveClosure rows = DepthMap.ofRows rows := by
  simp only [Reconciliation.isEmpty, Bool.and_eq_true, List.isEmpty_iff,
    List.eq_nil_iff_forall_not_mem, mem_stale, mem_missing, mem_redepth]
  constructor
  · rintro ⟨⟨hstale, hmissing⟩, hredepth⟩
    refine Table.ext_get? fun q => ?_
    cases hc : (transitiveClosure rows).get? q with
    | none =>
      by_contra hne
      obtain ⟨d, hd⟩ := Option.ne_none_iff_exists'.1 (Ne.symm hne)
      have hp := (DepthMap.get?_ofRows hnodup (p := ⟨q.1, q.2, d⟩)).1 hd
      exact hstale _ ⟨hp, hc⟩
    | some c =>
      have hstored : q ∈ rows.map Path.pair := by
        by_contra hfree
        exact hmissing ⟨q.1, q.2, c⟩ ⟨hc, hfree⟩
      obtain ⟨p, hp, rfl⟩ := List.mem_map.1 hstored
      have hdepth : c = p.depth := by
        by_contra hne
        exact hredepth ⟨p.ancestor, p.descendant, c⟩ ⟨hc, p, hp, rfl, hne⟩
      rw [hdepth]
      exact ((DepthMap.get?_ofRows hnodup).2 hp).symm
  · intro h
    rw [h]
    refine ⟨⟨fun p hp => ?_, fun p hp => ?_⟩, fun p hp => ?_⟩
    · have hget := (DepthMap.get?_ofRows hnodup).2 hp.1
      rw [hp.2] at hget
      cases hget
    · exact hp.2 ((DepthMap.mem_map_pair hnodup).2 ⟨_, hp.1⟩)
    · obtain ⟨hget, q, hq, e, hne⟩ := hp
      have hq' := (DepthMap.get?_ofRows hnodup).2 hq
      rw [e, hget] at hq'
      exact hne (Option.some.inj hq')

end Repair

end Closure

end Lineage
