import Lineage.Proofs.Commit
import Lineage.Proofs.Holds

/-!
# Work on contents that hold a graph

Each piece of work, done on a store that refuses nothing, does to the contents what the change of
the same name does to the graph they hold: it gives up for the same reason or leaves contents that
hold the changed graph.

* `Work.add_follows`, `update_follows`, `link_follows`, `unlink_follows`, `archive_follows`,
  `recover_follows`: work without an answer.
* `Work.purge_follows`, `delete_follows`: work that answers which nodes it touched.
-/

open Relation

namespace Lineage

variable {k : Kind}

/-! ## Contents -/

/-- The rows that end at a node start where rows of pairs with it do. -/
theorem Contents.exists_upper_iff {a x : NodeId k} {t : Contents k} :
    (∃ p ∈ t.rows.filter (fun p => p.descendant == a), p.ancestor = x) ↔
      ∃ c, t.paths.get? (x, a) = some c := by
  simp only [List.mem_filter, beq_iff_eq]
  constructor
  · rintro ⟨⟨_, _, c⟩, ⟨hp, rfl⟩, rfl⟩
    exact ⟨c, DepthMap.mk_mem_rows.1 hp⟩
  · rintro ⟨c, hc⟩
    exact ⟨⟨x, a, c⟩, ⟨DepthMap.mk_mem_rows.2 hc, rfl⟩, rfl⟩

namespace Contents

variable {t : Contents k} {g : Dag k} {id : NodeId k} {node : Node k} {code : String}

/-- The graph of the records, without edges. -/
def records (t : Contents k) : Dag k := { active := t.active, archived := t.archived }

theorem hasId_iff : t.hasId id = true ↔ t.records.Knows id := by
  rw [hasId, Table.contains_eq, Table.contains_eq, Dag.Knows, Dag.node?,
    ← Option.isSome_iff_exists, Option.isSome_or]
  rfl

section Owners

variable (h : t.records.WellFormed)

include h

theorem mem_values_iff :
    node ∈ t.active.values ++ t.archived.values ↔ t.records.node? node.id = some node := by
  rw [List.mem_append, Table.mem_values, Table.mem_values]
  constructor
  · rintro (⟨id, hid⟩ | ⟨id, hid⟩)
    · have hn : t.records.node? id = some node := Dag.node?_of_active hid
      rwa [h.own id node hn]
    · have hn : t.records.node? id = some node := h.node?_of_archived hid
      rwa [h.own id node hn]
  · intro hn
    rw [Dag.node?, Option.or_eq_some_iff] at hn
    exact hn.imp (fun hn => ⟨_, hn⟩) fun hn => ⟨_, hn.2⟩

theorem ownerOf_eq_some : t.ownerOf code = some id ↔ t.records.HasCode id code := by
  have hfound : ∀ {id}, t.ownerOf code = some id → t.records.HasCode id code := by
    intro id ho
    obtain ⟨n, hn, rfl⟩ := Option.map_eq_some_iff.1 ho
    exact ⟨n, (mem_values_iff h).1 (List.mem_of_find?_eq_some hn),
      by simpa using List.find?_some hn⟩
  refine ⟨hfound, ?_⟩
  rintro ⟨n, hn, hc⟩
  have hmem : n ∈ t.active.values ++ t.archived.values :=
    (mem_values_iff h).2 (by rwa [h.own id n hn])
  have hsome : (t.ownerOf code).isSome := by
    rw [ownerOf, Option.isSome_map, List.find?_isSome]
    exact ⟨n, hmem, by simpa using hc⟩
  obtain ⟨owner, ho⟩ := Option.isSome_iff_exists.1 hsome
  rw [ho, h.code_unique owner id code (hfound ho) ⟨n, hn, hc⟩]

theorem ownerOf_eq_none : t.ownerOf code = none ↔ ∀ id, ¬ t.records.HasCode id code := by
  rw [Option.eq_none_iff_forall_ne_some]
  exact forall_congr' fun id => not_congr (ownerOf_eq_some h)

end Owners

namespace Holds

/-- The records are those of the graph. -/
theorem records_eq (h : t.Holds g) : t.records = { g with edge := fun _ _ => False } := by
  rw [records, h.active, h.archived]

theorem records_wellFormed (h : t.Holds g) : t.records.WellFormed :=
  h.records_eq ▸ h.wellFormed.edgeless

theorem hasId_iff (h : t.Holds g) : t.hasId id = true ↔ g.Knows id := by
  rw [Contents.hasId_iff, h.records_eq]
  rfl

theorem ownerOf_eq_some (h : t.Holds g) : t.ownerOf code = some id ↔ g.HasCode id code := by
  rw [Contents.ownerOf_eq_some h.records_wellFormed, h.records_eq]
  rfl

theorem ownerOf_eq_none (h : t.Holds g) : t.ownerOf code = none ↔ ∀ id, ¬ g.HasCode id code := by
  rw [Option.eq_none_iff_forall_ne_some]
  exact forall_congr' fun id => not_congr h.ownerOf_eq_some

/-! ## Tests on rows -/

/-- Some row that ends at `a` starts at `d` iff `d` reaches `a`. -/
theorem any_above_iff (h : t.Holds g) {a d : NodeId k} (hd : g.Knows d) :
    ((t.rows.filter fun p => p.descendant == a).any fun p => p.ancestor == d) = true ↔
      ReflTransGen g.edge d a := by
  rw [List.any_eq_true]
  simp only [beq_iff_eq]
  rw [exists_upper_iff, h.connected, and_iff_right hd]

/-- Some row that starts at a node ends at another one iff the node has an edge. -/
theorem any_below_iff (h : t.Holds g) {d : NodeId k} :
    ((t.rows.filter fun p => p.ancestor == d).any fun p => !p.isSelf) = true ↔
      ∃ y, g.edge d y := by
  rw [List.any_eq_true]
  simp only [List.mem_filter, beq_iff_eq, Path.isSelf, Bool.not_eq_true', beq_eq_false_iff_ne]
  constructor
  · rintro ⟨⟨_, y, c⟩, ⟨hp, rfl⟩, hc⟩
    have hd := (h.get?_eq_some.1 (DepthMap.mk_mem_rows.1 hp)).2
    obtain ⟨n, hn⟩ := Nat.exists_eq_succ_of_ne_zero fun h0 => hc (UInt32.toNat_inj.1 h0)
    rw [hn] at hd
    obtain ⟨z, e, -⟩ := TransGen.head'_iff.1 hd.1.transGen
    exact ⟨z, e⟩
  · rintro ⟨y, e⟩
    exact ⟨⟨d, y, 1⟩, ⟨DepthMap.mk_mem_rows.2 (h.get?_eq_one.2 e), rfl⟩,
      (by decide : (1 : UInt32) ≠ 0)⟩

end Holds

end Contents

namespace Work

/-! ## Calls -/

variable {α β : Type}

-- The equations of the calls are made here, once for all the work below.
attribute [local simp] Contents.perform

/-- What a call leaves for the work after it. -/
def settled (failed : StoreError → HierarchyError k) :
    Except StoreError α × Contents k → Except (HierarchyError k) (α × Contents k)
  | (.ok a, t) => .ok (a, t)
  | (.error e, _) => .error (failed e)

@[simp] theorem settled_ok (failed : StoreError → HierarchyError k) (a : α) (t : Contents k) :
    settled failed (.ok a, t) = .ok (a, t) := rfl

theorem bind_apply (w : Work k α) (f : α → Work k β) (s : MemoryStore k) (t : Contents k) :
    (w >>= f) s t = (w s t).bind fun r => f r.1 s r.2 := rfl

theorem pure_apply (a : α) (s : MemoryStore k) (t : Contents k) :
    (pure a : Work k α) s t = .ok (a, t) := rfl

theorem ok_bind (a : α) (f : α → Except (HierarchyError k) β) : (Except.ok a).bind f = f a := rfl

variable {s : MemoryStore k} (hs : s.refusal = none)

include hs

theorem ask_apply (c : Call k α) (failed : StoreError → HierarchyError k) (t : Contents k) :
    ask c failed s t = settled failed (t.perform c) := by
  rw [ask, MemoryStore.answer_eq hs]
  rcases t.perform c with ⟨_ | _, _⟩ <;> rfl

/-- Pruned rows are the closure of their edges. -/
theorem prune_eq (t : Contents k) :
    prune s t = .ok ((), { t with paths := Closure.transitiveClosure t.rows }) := by
  unfold prune
  simp only [bind_apply, ask_apply hs, Contents.perform, settled_ok, ok_bind]
  by_cases hempty : (Closure.reconcile t.rows).isEmpty
  · have hclosure := (Closure.isEmpty_reconcile_iff (DepthMap.nodup_rows t.paths)).1 hempty
    change Closure.transitiveClosure t.rows = _ at hclosure
    rw [DepthMap.ofRows_rows] at hclosure
    rw [if_pos hempty, hclosure]
    rfl
  have hinsert := Contents.insertPaths_missing t
  have hrepaired : Closure.transitiveClosure t.rows = Contents.repaired t.paths :=
    (Contents.repaired_eq t.paths).symm
  rw [if_neg hempty, hrepaired]
  simp only [bind_apply, ask_apply hs, Contents.perform, hinsert, settled_ok, ok_bind]
  rfl

theorem requireNode_apply (id : NodeId k) (t : Contents k) :
    requireNode id s t =
      if t.active.get? id = none then .error (.notFound (.node id)) else .ok ((), t) := by
  unfold requireNode
  simp only [bind_apply, ask_apply hs, Contents.perform, settled_ok, ok_bind]
  cases t.active.get? id <;> rfl

open Classical in
theorem hasEdge_apply {t : Contents k} {g : Dag k} (h : t.Holds g) (a d : NodeId k) :
    hasEdge a d s t = .ok (decide (g.edge a d), t) := by
  unfold hasEdge
  simp only [bind_apply, ask_apply hs, Contents.perform, settled_ok, ok_bind, ← h.get?_eq_one]
  cases t.paths.get? (a, d) with
  | none => rfl
  | some c => simp [pure_apply, Path.isDirect, beq_eq_decide]

/-! ## Changes -/

omit hs

/-- The work gives up as the change of the graph `g` is refused, or answers what `agree` allows and
leaves contents that hold the changed graph, if they fit. -/
def Follows (g : Dag k) (w : Except (HierarchyError k) (α × Contents k))
    (r : Except (HierarchyError k) β × Dag k) (agree : α → β → Prop) : Prop :=
  match r with
  | (.error e, g') => w = .error e ∧ g' = g
  | (.ok b, g') => ∃ a t, w = .ok (a, t) ∧ agree a b ∧ (t.Fits → t.Holds g')

include hs

variable {t : Contents k} {g : Dag k} (h : t.Holds g)

include h

theorem add_follows (node : Node k) : Follows g (add node s t) (g.insert node) fun _ _ => True := by
  unfold add Dag.insert
  simp only [bind_apply, ask_apply hs, Contents.perform, settled_ok, ok_bind]
  by_cases hid : g.Knows node.id
  · rw [if_pos hid, if_pos (h.hasId_iff.2 hid)]
    exact ⟨rfl, rfl⟩
  rw [if_neg hid, if_neg (mt h.hasId_iff.1 hid)]
  simp only [bind_apply, ask_apply hs, Contents.perform, settled_ok, ok_bind]
  by_cases hcode : ∃ id, g.HasCode id node.code
  · have howner : (t.ownerOf node.code).isSome := by
      obtain ⟨id, hc⟩ := hcode
      rw [h.ownerOf_eq_some.2 hc, Option.isSome_some]
    rw [if_pos howner, if_pos hcode]
    exact ⟨rfl, rfl⟩
  have howner : ¬ (t.ownerOf node.code).isSome := by
    rw [Option.not_isSome_iff_eq_none, h.ownerOf_eq_none]
    exact not_exists.1 hcode
  rw [if_neg howner, if_neg hcode]
  have hinsert : t.insertNode node =
      (.ok (), { t with active := t.active.insert node.id node }) := by
    rw [Contents.insertNode, if_neg (mt h.hasId_iff.1 hid), if_neg howner]
  have hself : ∀ p ∈ [Path.self node.id], t.paths.get? p.pair = none := by
    intro p hp
    obtain rfl := List.mem_singleton.1 hp
    rw [Option.eq_none_iff_forall_ne_some]
    exact fun c hc => hid (h.connected.1 ⟨c, hc⟩).1
  have hrows := Contents.insertPaths_eq (s := { t with active := t.active.insert node.id node })
    (by simp) hself
  simp only [bind_apply, ask_apply hs, Contents.perform, hinsert, settled_ok, ok_bind, hrows]
  exact ⟨(), _, rfl, trivial, fun _ => h.insert hid (not_exists.1 hcode)⟩

/-- The write of an update, to which all its branches come that do not give up. -/
theorem overwrite_follows {node current : Node k} (hn : g.active.get? node.id = some current)
    (hcode : ∀ id, id ≠ node.id → ¬ g.HasCode id node.code) :
    Follows g ((do unless ← ask (.updateNode node) do refuse (.notFound (.node node.id)) :
      Work k Unit) s t)
      (.ok (), { g with active := g.active.insert node.id node }) fun _ _ => True := by
  have hfound : t.active.contains node.id := Table.contains_iff.2 ⟨current, by rw [h.active, hn]⟩
  simp only [bind_apply, ask_apply hs, Contents.perform, Contents.updateNode, if_pos hfound,
    settled_ok, ok_bind]
  refine ⟨(), _, rfl, trivial, fun _ => ?_⟩
  have hg := h.wellFormed.write (h.wellFormed.not_archived hn) hcode
  refine h.of_nodes hg rfl (fun x => ?_) (by simp only [h.active]) h.archived rfl
  rw [Dag.knows_write, or_iff_right_of_imp]
  rintro rfl
  exact ⟨current, Dag.node?_of_active hn⟩

theorem update_follows (node : Node k) :
    Follows g (update node s t) (g.overwrite node) fun _ _ => True := by
  unfold update Dag.overwrite
  simp only [bind_apply, ask_apply hs, Contents.perform, settled_ok, ok_bind, h.active]
  cases hn : g.active.get? node.id with
  | none => exact ⟨rfl, rfl⟩
  | some current =>
    have hcurrent := Dag.node?_of_active hn
    rw [if_neg (Option.some_ne_none _)]
    dsimp only
    by_cases hcode : ∃ id, id ≠ node.id ∧ g.HasCode id node.code
    · rw [if_pos hcode]
      obtain ⟨id, hid, hc⟩ := hcode
      have hne : (current.code != node.code) = true := by
        rw [bne_iff_ne]
        exact fun e => hid (h.wellFormed.code_unique _ _ _ hc ⟨current, hcurrent, e⟩)
      rw [if_pos hne]
      simp only [bind_apply, ask_apply hs, Contents.perform, settled_ok, ok_bind,
        h.ownerOf_eq_some.2 hc]
      rw [if_pos (bne_iff_ne.2 hid)]
      exact ⟨rfl, rfl⟩
    rw [if_neg hcode]
    have hcode : ∀ id, id ≠ node.id → ¬ g.HasCode id node.code :=
      fun id hid hc => hcode ⟨id, hid, hc⟩
    by_cases hne : (current.code != node.code) = true
    · rw [if_pos hne]
      simp only [bind_apply _ _ s t, ask_apply hs, Contents.perform, settled_ok, ok_bind]
      cases ho : t.ownerOf node.code with
      | none => exact overwrite_follows hs h hn hcode
      | some owner =>
        have howner : ¬ (owner != node.id) = true := by
          rw [bne_iff_ne, not_not]
          exact by_contra fun hid => hcode owner hid (h.ownerOf_eq_some.1 ho)
        dsimp only
        rw [if_neg howner]
        exact overwrite_follows hs h hn hcode
    · rw [if_neg hne]
      exact overwrite_follows hs h hn hcode

theorem archive_follows (id : NodeId k) :
    Follows g (archive id s t) (g.archive id) fun _ _ => True := by
  unfold archive Dag.archive
  simp only [bind_apply, ask_apply hs, Contents.perform, settled_ok, ok_bind, Contents.archiveNode,
    h.active]
  cases hn : g.active.get? id with
  | none => exact ⟨rfl, rfl⟩
  | some node =>
    refine ⟨(), _, rfl, trivial, fun _ => ?_⟩
    refine h.of_nodes (h.wellFormed.archive hn) rfl (fun x => ?_) rfl ?_ rfl
    · rw [Dag.Knows, Dag.node?_archive hn, Dag.Knows]
    · simp only [h.archived]

theorem recover_follows (id : NodeId k) :
    Follows g (recover id s t) (g.recover id) fun _ _ => True := by
  unfold recover Dag.recover
  simp only [bind_apply, ask_apply hs, Contents.perform, settled_ok, ok_bind, Contents.restoreNode,
    h.archived]
  cases hn : g.archived.get? id with
  | none => exact ⟨rfl, rfl⟩
  | some node =>
    refine ⟨(), _, rfl, trivial, fun _ => ?_⟩
    refine h.of_nodes (h.wellFormed.recover hn) rfl (fun x => ?_) ?_ rfl rfl
    · rw [Dag.Knows, Dag.node?_recover h.wellFormed hn, Dag.Knows]
    · simp only [h.active]

open Classical in
theorem link_follows (a d : NodeId k) :
    Follows g (link a d s t) (g.link a d) fun _ _ => True := by
  unfold link Dag.link
  simp only [bind_apply _ _ s t, requireNode_apply hs, h.active]
  by_cases hd : g.active.get? d = none
  · rw [if_pos hd, if_pos hd]
    exact ⟨rfl, rfl⟩
  rw [if_neg hd, if_neg hd, ok_bind]
  simp only [bind_apply _ _ s t, requireNode_apply hs, h.active]
  by_cases ha : g.active.get? a = none
  · rw [if_pos ha, if_pos ha]
    exact ⟨rfl, rfl⟩
  rw [if_neg ha, if_neg ha, ok_bind]
  simp only [bind_apply _ _ s t, ask_apply hs, Contents.perform, settled_ok, ok_bind]
  have hcycle := h.any_above_iff (a := a) (Dag.knows_of_active hd)
  by_cases hda : ReflTransGen g.edge d a
  · rw [if_pos hda, if_pos (hcycle.2 hda)]
    exact ⟨rfl, rfl⟩
  rw [if_neg hda, if_neg (mt hcycle.1 hda)]
  simp only [bind_apply _ _ s t, hasEdge_apply hs h, ok_bind]
  by_cases he : g.edge a d
  · rw [if_pos he, if_pos (decide_eq_true he)]
    exact ⟨rfl, rfl⟩
  rw [if_neg he, if_neg (mt of_decide_eq_true he)]
  have hinsert := Contents.insertPaths_linkPlan t a d
  simp only [bind_apply _ _ s t, ask_apply hs, Contents.perform, settled_ok, ok_bind]
  simp only [Contents.linkPlan, Contents.rows] at hinsert ⊢
  rw [hinsert]
  refine ⟨(), _, rfl, trivial, fun hfits => ?_⟩
  exact h.link hfits (Dag.knows_of_active ha) (Dag.knows_of_active hd) hda

open Classical in
/-- Detaching, once the leaf rule is met. -/
theorem cut_follows (a d : NodeId k) :
    Follows g ((do
      unless ← hasEdge a d do refuse (.notFound (.path a d))
      let _ ← ask (.deletePaths [Path.direct a d])
      prune : Work k Unit) s t)
      (if g.edge a d then (.ok (), { g with edge := fun x y => g.edge x y ∧ (x, y) ≠ (a, d) })
        else (.error (.notFound (.path a d)), g)) fun _ _ => True := by
  simp only [bind_apply _ _ s t, hasEdge_apply hs h, ok_bind]
  by_cases he : g.edge a d
  · rw [if_pos he, if_pos (decide_eq_true he)]
    simp only [bind_apply _ _ s, ask_apply hs, Contents.perform, settled_ok, ok_bind, prune_eq hs]
    exact ⟨(), _, rfl, trivial, fun hfits => h.unlink he hfits⟩
  · rw [if_neg he, if_neg (mt of_decide_eq_true he)]
    exact ⟨rfl, rfl⟩

theorem unlink_follows (leafOnly : Bool) (a d : NodeId k) :
    Follows g (unlink leafOnly a d s t) (g.unlink leafOnly a d) fun _ _ => True := by
  have hleaf := h.any_below_iff (d := d)
  unfold unlink Dag.unlink
  cases leafOnly with
  | false =>
    rw [if_neg Bool.false_ne_true, if_neg fun hl => Bool.false_ne_true hl.1]
    exact cut_follows hs h a d
  | true =>
    rw [if_pos rfl]
    simp only [bind_apply _ _ s t, ask_apply hs, Contents.perform, settled_ok, ok_bind]
    by_cases hl : ∃ y, g.edge d y
    · rw [if_pos (hleaf.2 hl), if_pos ⟨rfl, hl⟩]
      exact ⟨rfl, rfl⟩
    · rw [if_neg (mt hleaf.1 hl), if_neg fun hl' => hl hl'.2]
      exact cut_follows hs h a d

/-- What was above a node is told from its rows, whatever became of its record. -/
theorem withAncestors_apply {id : NodeId k} (hid : g.Knows id) {t' : Contents k}
    (hpaths : t'.paths = t.paths) : ∃ touched, withAncestors id s t' = .ok (touched, t') ∧
      ∀ x, x ∈ touched ↔ ReflTransGen g.edge x id := by
  have hrows : t'.rows = t.rows := congrArg DepthMap.rows hpaths
  have hmem : ∀ x, x ∈ (t.rows.filter fun p => p.descendant == id).map (·.ancestor) ↔
      ReflTransGen g.edge x id := by
    intro x
    rw [List.mem_map, Contents.exists_upper_iff, h.connected, and_iff_right_iff_imp]
    intro hx
    rcases ReflTransGen.cases_head hx with rfl | ⟨y, e, -⟩
    · exact hid
    · exact (h.wellFormed.ends x y e).1
  have hself : ((t.rows.filter fun p => p.descendant == id).map (·.ancestor)).contains id :=
    List.contains_iff_mem.2 ((hmem id).2 .refl)
  refine ⟨_, ?_, hmem⟩
  unfold withAncestors
  simp only [bind_apply, ask_apply hs, Contents.perform, settled_ok, ok_bind, hrows, if_pos hself]
  rfl

/-- A node whose record is gone is dropped with its rows. -/
theorem detach_apply {id : NodeId k} (hid : g.Knows id) (t' : Contents k)
    (ht : t' = { t with active := t.active.erase id, archived := t.archived.erase id }) :
    ∃ touched t'', detach id s t' = .ok (touched, t'') ∧
      (∀ x, x ∈ touched ↔ ReflTransGen g.edge x id) ∧ (t''.Fits → t''.Holds (g.drop id)) := by
  have hpaths : t'.paths = t.paths := by rw [ht]
  obtain ⟨touched, htouched, hmem⟩ := withAncestors_apply hs h hid hpaths
  subst ht
  unfold detach
  simp only [bind_apply, htouched, ask_apply hs, Contents.perform, settled_ok, ok_bind, prune_eq hs]
  exact ⟨touched, _, rfl, hmem, fun hfits => h.drop rfl hfits⟩

/-- The nodes that a purge touched, as opposed to one that found nothing. -/
theorem purge_follows (id : NodeId k) :
    Follows g (purge id s t) (g.purge id) fun touched outcome =>
      match touched, outcome with
      | none, .notArchived => True
      | some touched, .purged => ∀ x, x ∈ touched ↔ ReflTransGen g.edge x id
      | _, _ => False := by
  unfold purge Dag.purge
  simp only [bind_apply _ _ s t, ask_apply hs, Contents.perform, settled_ok, ok_bind, h.archived]
  cases hn : g.archived.get? id with
  | none => exact ⟨none, t, rfl, trivial, fun _ => h⟩
  | some node =>
    have hid : g.Knows id := ⟨node, h.wellFormed.node?_of_archived hn⟩
    have hactive : t.active.erase id = t.active :=
      Table.erase_eq_self (by rw [h.active]; exact h.wellFormed.not_active hn)
    obtain ⟨touched, t', hdetach, hmem, hholds⟩ := detach_apply hs h hid
      { t with archived := t.archived.erase id } (by rw [hactive])
    rw [h.archived] at hdetach
    simp only [Option.isNone_some, Bool.false_eq_true, if_false, bind_apply, ask_apply hs,
      Contents.perform, settled_ok, ok_bind, h.archived, hdetach]
    exact ⟨some touched, t', rfl, hmem, hholds⟩

theorem delete_follows (id : NodeId k) :
    Follows g (delete id s t) (g.delete id) fun touched _ =>
      ∀ x, x ∈ touched ↔ ReflTransGen g.edge x id := by
  unfold delete Dag.delete
  simp only [bind_apply _ _ s t, ask_apply hs, Contents.perform, settled_ok, ok_bind, h.active]
  cases hn : g.active.get? id with
  | none =>
    rw [Table.not_contains_iff.2 hn, if_neg Bool.false_ne_true]
    exact ⟨rfl, rfl⟩
  | some node =>
    have hid : g.Knows id := ⟨node, Dag.node?_of_active hn⟩
    obtain ⟨touched, t', hdetach, hmem, hholds⟩ := detach_apply hs h hid _ rfl
    rw [h.active] at hdetach
    rw [Table.contains_iff.2 ⟨node, hn⟩, if_pos rfl]
    simp only [bind_apply _ _ s, ask_apply hs, Contents.perform, settled_ok, ok_bind, hdetach]
    exact ⟨touched, t', rfl, hmem, hholds⟩

/-! ## Lookups -/

theorem view_apply (node : Node k) : ∃ b, view node s t = .ok (⟨node, b⟩, t) ∧
    (b = true ↔ ∃ y, g.edge node.id y) := by
  have hparent : ∀ x, x ∈ (KeySet.ofList ((t.rows.filter fun p =>
      p.isDirect && [node.id].contains p.ancestor).map (·.ancestor))).keys ↔
      x = node.id ∧ ∃ y, g.edge node.id y := by
    intro x
    rw [KeySet.mem_keys_ofList, List.mem_map]
    simp only [List.mem_filter, Path.isDirect, Bool.and_eq_true, beq_iff_eq, List.contains_iff_mem,
      List.mem_singleton]
    constructor
    · rintro ⟨⟨_, y, c⟩, ⟨hp, rfl, rfl⟩, rfl⟩
      exact ⟨rfl, y, h.get?_eq_one.1 (DepthMap.mk_mem_rows.1 hp)⟩
    · rintro ⟨rfl, y, e⟩
      exact ⟨⟨node.id, y, 1⟩, ⟨DepthMap.mk_mem_rows.2 (h.get?_eq_one.2 e), rfl, rfl⟩, rfl⟩
  unfold view
  simp only [bind_apply, ask_apply hs, Contents.perform, settled_ok, ok_bind]
  refine ⟨_, rfl, ?_⟩
  rw [Bool.not_eq_true', List.isEmpty_eq_false_iff_exists_mem]
  simp only [hparent, exists_eq_left]

theorem viewById_apply (id : NodeId k) :
    (g.active.get? id = none ∧ viewById id s t = .error (.notFound (.node id))) ∨
      ∃ v, v.node.id = id ∧ g.Shows v ∧ viewById id s t = .ok (v, t) := by
  unfold viewById
  simp only [bind_apply, ask_apply hs, Contents.perform, settled_ok, ok_bind, h.active]
  cases hn : g.active.get? id with
  | none => exact .inl ⟨rfl, rfl⟩
  | some node =>
    obtain ⟨b, hview, hb⟩ := view_apply hs h node
    have hid : node.id = id := h.wellFormed.own id node (Dag.node?_of_active hn)
    exact .inr ⟨⟨node, b⟩, hid, ⟨hid ▸ hn, hb⟩, hview⟩

theorem viewByCode_apply (code : String) :
    (g.active.values.find? (fun n => n.code == code) = none ∧
        viewByCode code s t = .error (.notFound (.code code))) ∨
      ∃ v, g.active.values.find? (fun n => n.code == code) = some v.node ∧ g.Shows v ∧
        viewByCode code s t = .ok (v, t) := by
  unfold viewByCode
  simp only [bind_apply, ask_apply hs, Contents.perform, settled_ok, ok_bind, h.active]
  cases hn : g.active.values.find? fun n => n.code == code with
  | none => exact .inl ⟨rfl, rfl⟩
  | some node =>
    obtain ⟨b, hview, hb⟩ := view_apply hs h node
    obtain ⟨id, hid⟩ := Table.mem_values.1 (List.mem_of_find?_eq_some hn)
    have hown : node.id = id := h.wellFormed.own id node (Dag.node?_of_active hid)
    exact .inr ⟨⟨node, b⟩, rfl, ⟨hown ▸ hid, hb⟩, hview⟩

end Work

end Lineage
