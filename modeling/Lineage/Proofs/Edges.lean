import Lineage.Proofs.Recovery
import Lineage.Proofs.Rejections

/-!
# Where edges come from

The edges of a hierarchy are those that some operation linked and that no later one severed.

* `Operation.Links`, `World.Links`: what adds an edge; `Severs` says what removes one.
* `Dag.WellFormed.serve_edge`: the edges of a graph after an operation; `Hierarchy.serve_edges` says
  the same of a hierarchy, whatever became of the operation.
* `World.Linked`: some event of a run links an edge that no later one severs.
* `World.run_edges`: those are the edges after the run, besides old ones that it did not sever.
-/

namespace Lineage

variable {k : Kind}

/-- Whether an operation added an edge. -/
def Operation.Links (a d : NodeId k) (answer : Except (Failure k) (Reply k))
    (op : Operation k) : Prop :=
  op = .link a d ∧ answer = .ok .done

/-! ## Graphs -/

namespace Dag

variable {g : Dag k} {a d x y : NodeId k} {code : String}

theorem edge_link (g : Dag k) (a d : NodeId k) : (g.link a d).2.edge x y ↔
    (a = x ∧ d = y) ∧ (g.link a d).1 = .ok () ∨ g.edge x y := by
  unfold link
  split_ifs
  iterate 4 simp
  simp only [Joined, and_true, eq_comm, or_comm]

theorem edge_unlink (g : Dag k) (leafOnly : Bool) (a d : NodeId k) :
    (g.unlink leafOnly a d).2.edge x y ↔
      g.edge x y ∧ ¬ ((x = a ∧ y = d) ∧ (g.unlink leafOnly a d).1 = .ok ()) := by
  unfold unlink
  split_ifs <;> simp

theorem edge_archive (g : Dag k) (id : NodeId k) : (g.archive id).2.edge = g.edge := by
  unfold archive
  cases g.active.get? id <;> rfl

theorem edge_recover (g : Dag k) (id : NodeId k) : (g.recover id).2.edge = g.edge := by
  unfold recover
  cases g.archived.get? id <;> rfl

theorem edge_purge (g : Dag k) (id : NodeId k) : (g.purge id).2.edge x y ↔
    g.edge x y ∧ ¬ ((x = id ∨ y = id) ∧ (g.purge id).1 = .ok .purged) := by
  unfold purge
  cases g.archived.get? id with
  | none => simp
  | some node => simp [drop]

theorem edge_delete (g : Dag k) (id : NodeId k) : (g.delete id).2.edge x y ↔
    g.edge x y ∧ ¬ ((x = id ∨ y = id) ∧ (g.delete id).1 = .ok ()) := by
  unfold delete
  cases g.active.get? id with
  | none => simp
  | some node => simp [drop]

theorem edge_unused_delete (g : Dag k) (env : Surroundings k) (id : NodeId k) :
    (g.unused env id (g.delete id)).2.edge x y ↔
      g.edge x y ∧ ¬ ((x = id ∨ y = id) ∧ (g.unused env id (g.delete id)).1 = .ok ()) := by
  unfold unused
  rcases env.consumersOf id with e | _ | ⟨c, cs⟩
  · simp
  · exact edge_delete g id
  · simp

/-- The edges after an operation are the one that it linked and those that it did not sever. -/
theorem WellFormed.serve_edge (hg : g.WellFormed) (leafOnly : Bool) (env : Surroundings k)
    (op : Operation k) :
    (g.serve leafOnly env op).2.edge x y ↔
      op.Links x y (g.serve leafOnly env op).1 ∨
        g.edge x y ∧ ¬ op.Severs g.active x y (g.serve leafOnly env op).1 := by
  cases op with
  | add new =>
    have hedge : (g.serve leafOnly env (.add new)).2.edge = g.edge := by
      simp only [serve]
      split
      · rfl
      · unfold insert
        split_ifs <;> rfl
    rw [hedge]
    simp [Operation.Links, Operation.Severs, Operation.Removes]
  | update node =>
    have hedge : (g.serve leafOnly env (.update node)).2.edge = g.edge := by
      simp only [serve]
      split
      · rfl
      · unfold overwrite
        split_ifs <;> rfl
    rw [hedge]
    simp [Operation.Links, Operation.Severs, Operation.Removes]
  | link a d =>
    simp only [serve, replied_eq_done, Operation.Links, Operation.Severs, Operation.Removes]
    have hedge := g.edge_link a d (x := x) (y := y)
    simpa [replied] using hedge
  | unlink a d =>
    simp only [Operation.severs_unlink, serve, replied_eq_done, Operation.Links, reduceCtorEq,
      false_and, false_or]
    exact g.edge_unlink leafOnly a d
  | archive id =>
    have hedge : (g.serve leafOnly env (.archive id)).2.edge = g.edge := by
      simp only [serve, replied, unused]
      rcases env.consumersOf id with e | _ | ⟨c, cs⟩
      · rfl
      · exact g.edge_archive id
      · rfl
    rw [hedge]
    simp [Operation.Links, Operation.Severs, Operation.Removes]
  | recover id =>
    have hedge : (g.serve leafOnly env (.recover id)).2.edge = g.edge := g.edge_recover id
    rw [hedge]
    simp [Operation.Links, Operation.Severs, Operation.Removes]
  | purge id =>
    simp only [Operation.severs_purge, Operation.Links, reduceCtorEq, false_and, false_or, serve]
    rcases env.consumersOf id with e | _ | ⟨c, cs⟩
    · simp
    · simp only [replied_eq_purged]
      exact g.edge_purge id
    · simp
  | delete id =>
    simp only [Operation.severs_delete, serve, replied_eq_done, Operation.Links, reduceCtorEq,
      false_and, false_or]
    exact g.edge_unused_delete env id
  | deleteByCode code =>
    simp only [serve, Operation.Severs, Operation.Removes, Operation.Links, reduceCtorEq,
      false_and, false_or]
    split_ifs with hblank
    · simp [hblank]
    cases hfind : g.active.values.find? fun n => n.code == code with
    | none => simp
    | some node =>
      simp only [hg.exists_code_iff hfind, replied_eq_done, hblank, true_and, ← and_or_left]
      rw [and_comm (b := x = node.id ∨ y = node.id)]
      exact g.edge_unused_delete env node.id

end Dag

/-! ## Hierarchies -/

namespace Hierarchy

variable {h : Hierarchy k} {g : Dag k}

/-- The edges after an operation, whatever became of it, are the one that it linked and those that
it did not sever. -/
theorem serve_edges (hh : h.Holds g) (env : Surroundings k) (op : Operation k)
    (hopen : (h.serve env op).2.store.locked = false)
    (hfits : (h.serve env op).2.store.contents.Fits) :
    ∃ g', (h.serve env op).2.Holds g' ∧ (h.serve env op).2.rival = h.rival ∧
      ∀ a d, g'.edge a d ↔ op.Links a d (h.serve env op).1 ∨
        g.edge a d ∧ ¬ op.Severs h.store.contents.active a d (h.serve env op).1 := by
  -- An archiving may be refused where the graph takes it, so it does not track the graph.
  by_cases harchive : ∃ id, op = .archive id
  · obtain ⟨id, rfl⟩ := harchive
    rcases serve_archive_cases hh env id with ⟨g', hg', hmoves⟩ | hcutOff
    · refine ⟨g', hmoves.holds (within_holds hh env) hfits, hmoves.rival, fun a d => ?_⟩
      have hedge : g'.edge = g.edge := by
        rcases hg' with rfl | rfl
        · rfl
        · exact g.edge_archive id
      rw [hedge]
      simp [Operation.Links, Operation.Severs, Operation.Removes]
    · rw [hcutOff] at hopen
      cases hopen
  · obtain ⟨hanswer, hmoves⟩ := serve_tracks hh env op fun id he => absurd ⟨id, he⟩ harchive
    rw [hanswer, hh.contents.active]
    exact ⟨_, hmoves.holds (within_holds hh env) hfits, hmoves.rival,
      fun a d => hh.contents.wellFormed.serve_edge _ env op⟩

end Hierarchy

/-! ## Runs -/

namespace World

variable {w : World k} {g : Dag k}

/-- Whether an event adds an edge. -/
def Links (a d : NodeId k) (w : World k) : Event k → Prop
  | .serve env op => op.Links a d (w.hierarchy.serve env op).1
  | _ => False

/-- Whether some event of a run adds an edge that no later one removes. -/
def Linked (a d : NodeId k) (w : World k) : List (Event k) → Prop
  | [] => False
  | e :: rest => w.Links a d e ∧ ¬ (w.step e).Meets (Severs a d) rest ∨ (w.step e).Linked a d rest

/-- What is not an operation changes the cache alone. -/
theorem step_undisturbed (hrival : w.hierarchy.rival = none) (e : Event k)
    (he : ∀ env op, e ≠ .serve env op) : w.hierarchy.Undisturbed (w.step e).hierarchy := by
  cases e with
  | serve env op => exact absurd rfl (he env op)
  | find key => exact .find hrival key
  | lose ids codes =>
    simp only [step, Hierarchy.lose]
    split
    · exact ⟨rfl, rfl, rfl⟩
    · exact .refl _
  | expire keys =>
    simp only [step, Hierarchy.expire]
    split
    · exact .refl _
    · exact ⟨rfl, rfl, rfl⟩
  | begin => exact .refl _
  | read i key =>
    simp only [step]
    split
    · split <;> exact .refl _
    · exact .refl _
  | put i =>
    simp only [step]
    split
    · exact .keep _ _
    · exact .refl _
  | recheck i =>
    simp only [step]
    split
    · exact .recheck _ _ _
    · exact .refl _
  | fill i =>
    simp only [step]
    split
    · exact .fill _ _ _
    · exact .refl _

/-- The edges after an event are the one that it linked and those that it did not sever. -/
theorem step_edges (hh : w.hierarchy.Holds g) (hrival : w.hierarchy.rival = none) (e : Event k)
    (hopen : (w.step e).hierarchy.store.locked = false) (hfits : (w.step e).contents.Fits) :
    ∃ g', (w.step e).hierarchy.Holds g' ∧ (w.step e).hierarchy.rival = none ∧
      ∀ a d, g'.edge a d ↔ w.Links a d e ∨ g.edge a d ∧ ¬ w.Severs a d e := by
  by_cases hserve : ∃ env op, e = .serve env op
  · obtain ⟨env, op, rfl⟩ := hserve
    obtain ⟨g', hh', hkept, hedges⟩ := Hierarchy.serve_edges hh env op hopen hfits
    exact ⟨g', hh', hkept.trans hrival, hedges⟩
  · have hquiet : ∀ env op, e ≠ .serve env op := fun env op he => hserve ⟨env, op, he⟩
    have hu := step_undisturbed hrival e hquiet
    refine ⟨g, hu.holds hh, hu.rival.trans hrival, fun a d => ?_⟩
    cases e with
    | serve env op => exact absurd rfl (hquiet env op)
    | _ => simp [Links, Severs]

/-- The edges after a run are those that it linked without severing them later, and old ones that it
did not sever. -/
theorem run_edges (hh : w.hierarchy.Holds g) (hrival : w.hierarchy.rival = none)
    (events : List (Event k)) (hopen : (w.run events).hierarchy.store.locked = false)
    (hfits : ∀ l, l <+: events → (w.run l).contents.Fits) :
    ∃ g', (w.run events).hierarchy.Holds g' ∧
      ∀ a d, g'.edge a d ↔ w.Linked a d events ∨ g.edge a d ∧ ¬ w.Meets (Severs a d) events := by
  induction events generalizing w g with
  | nil => exact ⟨g, hh, fun a d => by simp [Linked, Meets]⟩
  | cons e rest ih =>
    -- The store is open at the end, so the first event did not lock it.
    have hr : (w.step e).hierarchy.store.refusal = none := (w.step_refusal e).trans hh.refusal
    obtain ⟨g', hh', hrival', hedges⟩ :=
      step_edges hh hrival e (open_of_run hr hopen) (hfits [e] ⟨rest, rfl⟩)
    obtain ⟨g'', hh'', hedges'⟩ := ih hh' hrival' hopen fun l hl =>
      hfits (e :: l) (List.cons_prefix_cons.2 ⟨rfl, hl⟩)
    refine ⟨g'', hh'', fun a d => ?_⟩
    rw [hedges', hedges, Linked, Meets]
    tauto

end World

end Lineage
