import Mathlib.Tactic.IntervalCases
import Lineage.Proofs.Archiving

/-!
# A hierarchy refines its graph

`Hierarchy.Holds h g` says that the store of `h` works and holds the graph `g`. Every operation
answers what it answers on the graph and leaves a hierarchy that holds the changed graph, whatever
the cache, the guard and the ids (`Hierarchy.serve_tracks`); so does every run
(`Hierarchy.run_refines`).

`Hierarchy.Moves` says how a hierarchy changes along: not at all, or by a commit that drops the
cached views of all nodes it did not leave alone. Whether the purge of an archived node can be
scheduled or not, a hierarchy moves along with some graph, or an archiving was cut off and locked
the store (`Hierarchy.serve_cases`).
-/

open Relation

namespace Lineage.Hierarchy

variable {k : Kind} {h : Hierarchy k} {g : Dag k} {α β : Type}

/-- The store takes every call and holds a graph. -/
structure Holds (h : Hierarchy k) (g : Dag k) : Prop where
  refusal : h.store.refusal = none
  locked : h.store.locked = false
  contents : h.store.contents.Holds g

/-- What becomes of a hierarchy when the graph it holds changes: nothing beyond a drawn id, or a
commit that touched all nodes it did not leave alone. -/
inductive Moves (h : Hierarchy k) (g : Dag k) : Hierarchy k → Dag k → Prop
  | stay (ids : IdSource) : Moves h g { h with ids } g
  | commit {g' : Dag k} (ids : IdSource) (t : Contents k) (touched : List (NodeId k)) :
    (t.Fits → t.Holds g') → (∀ x, x ∉ touched → g.Agrees g' x) →
    Moves h g ({ h with ids }.committed t touched) g'

/-- The hierarchy answers as the graph does and moves along with it. -/
def Tracks (h : Hierarchy k) (g : Dag k) (r : α × Hierarchy k) (r' : α × Dag k) : Prop :=
  r.1 = r'.1 ∧ Moves h g r.2 r'.2

theorem Moves.of_ids {ids : IdSource} {h' : Hierarchy k} {g' : Dag k}
    (hm : Moves { h with ids } g h' g') : Moves h g h' g' := by
  cases hm with
  | stay ids => exact .stay ids
  | commit ids t touched hholds hfar => exact .commit ids t touched hholds hfar

theorem map_map_const (r : Except (HierarchyError k) Unit) (a : α) (f : α → β) :
    (r.map fun _ => a).map f = r.map fun _ => f a := by
  cases r <;> rfl

theorem map_unit (r : Except (HierarchyError k) Unit) : (r.map fun _ => ()) = r := by
  cases r <;> rfl

section Moved

variable {h' : Hierarchy k} {g' : Dag k} (hm : Moves h g h' g')

include hm

theorem Moves.settings : h'.settings = h.settings := by
  cases hm with
  | stay => rfl
  | commit => rw [committed_settings]

theorem Moves.refusal : h'.store.refusal = h.store.refusal := by
  cases hm with
  | stay => rfl
  | commit => rw [committed_store]

theorem Moves.locked : h'.store.locked = h.store.locked := by
  cases hm with
  | stay => rfl
  | commit => rw [committed_store]

/-- The contents hold the changed graph, if they fit. -/
theorem Moves.contents (hc : h.store.contents.Holds g) (hfits : h'.store.contents.Fits) :
    h'.store.contents.Holds g' := by
  cases hm with
  | stay => exact hc
  | commit ids t touched hholds =>
    rw [committed_store] at hfits ⊢
    exact hholds hfits

theorem Moves.holds (hh : h.Holds g) (hfits : h'.store.contents.Fits) : h'.Holds g' :=
  ⟨hm.refusal.trans hh.refusal, hm.locked.trans hh.locked, hm.contents hh.contents hfits⟩

end Moved

section Working

variable (hh : h.Holds g)

include hh

theorem run_eq (w : Work k α) : w.run h.store = w h.store h.store.contents :=
  MemoryStore.run_unlocked hh.refusal hh.locked w

theorem commit_eq (t : Contents k) :
    h.store.commit t = .ok { h.store with contents := t } :=
  MemoryStore.commit_eq hh.refusal t

/-- Work without an answer, done in a transaction. -/
theorem change_tracks {w : Work k Unit} {r : Except (HierarchyError k) Unit × Dag k}
    (hw : Work.Follows g (w h.store h.store.contents) r fun _ _ => True) (a : α)
    (touched : List (NodeId k)) (hfar : ∀ x, x ∉ touched → g.Agrees r.2 x)
    (failed : StoreError → HierarchyError k) :
    Tracks h g (h.change (do w; return (a, some touched)) failed) (r.1.map fun _ => a, r.2) := by
  unfold change
  rw [run_eq hh, Work.bind_apply]
  rcases r with ⟨e | ⟨⟩, g'⟩
  · obtain ⟨hw, rfl⟩ := hw
    rw [hw]
    exact ⟨rfl, .stay h.ids⟩
  · obtain ⟨⟨⟩, t, hw, -, hholds⟩ := hw
    rw [hw, Work.ok_bind, Work.pure_apply]
    simp only [commit_eq hh]
    exact ⟨rfl, .commit h.ids t touched hholds hfar⟩

/-! ## Operations -/

theorem add_tracks (millis : Int) (new : NewNode k) (hflaw : new.flaw? = none) :
    let node := new.toNode (new.id.getD ⟨(h.ids.draw millis).1⟩)
    Tracks h g (h.add millis new) ((g.insert node).1.map fun _ => node, (g.insert node).2) := by
  unfold add
  rw [hflaw]
  cases new.id with
  | some id =>
    exact change_tracks hh (Work.add_follows hh.refusal hh.contents (new.toNode id)) _ _
      (fun x hx => g.agrees_insert (new.toNode id) (by simpa [NewNode.toNode] using hx)) _
  | none =>
    have hdrawn : Holds { h with ids := (h.ids.draw millis).2 } g :=
      ⟨hh.refusal, hh.locked, hh.contents⟩
    have htracks := change_tracks hdrawn (Work.add_follows hdrawn.refusal hdrawn.contents
      (new.toNode ⟨(h.ids.draw millis).1⟩)) (new.toNode ⟨(h.ids.draw millis).1⟩)
      [⟨(h.ids.draw millis).1⟩]
      (fun x hx => g.agrees_insert _ (by simpa [NewNode.toNode] using hx)) .ofNodeWrite
    exact ⟨htracks.1, htracks.2.of_ids⟩

theorem update_tracks (node : Node k) (hflaw : node.flaw? = none) :
    Tracks h g (h.update node) ((g.overwrite node).1.map fun _ => node, (g.overwrite node).2) := by
  unfold update
  rw [hflaw]
  exact change_tracks hh (Work.update_follows hh.refusal hh.contents node) node _
    (fun x hx => g.agrees_overwrite node (by simpa using hx)) _

theorem link_tracks (a d : NodeId k) : Tracks h g (h.link a d) (g.link a d) := by
  have htracks := change_tracks hh (Work.link_follows hh.refusal hh.contents a d) () [a, d]
    (fun _ hx => g.agrees_link a d (List.ne_of_not_mem_cons hx)) .store
  rwa [map_unit] at htracks

theorem unlink_tracks (a d : NodeId k) :
    Tracks h g (h.unlink a d) (g.unlink h.settings.leafOnlyDetach a d) := by
  have htracks := change_tracks hh
    (Work.unlink_follows hh.refusal hh.contents h.settings.leafOnlyDetach a d) () [a, d]
    (fun _ hx => g.agrees_unlink _ a d (List.ne_of_not_mem_cons hx)) .store
  rwa [map_unit] at htracks

theorem recover_tracks (id : NodeId k) : Tracks h g (h.recover id) (g.recover id) := by
  have htracks := change_tracks hh (Work.recover_follows hh.refusal hh.contents id) () [id]
    (fun x hx => g.agrees_recover id (by simpa using hx)) .store
  rwa [map_unit] at htracks

/-- Removing an active node that is out of use. -/
theorem delete_change_tracks (id : NodeId k) :
    Tracks h g (h.change do return ((), some (← Work.delete id))) (g.delete id) := by
  have hw := Work.delete_follows hh.refusal hh.contents id
  have hfar := fun x => g.agrees_delete id (x := x)
  unfold change
  rw [run_eq hh, Work.bind_apply]
  revert hw hfar
  rcases g.delete id with ⟨e | ⟨⟩, g'⟩
  · rintro ⟨hw, rfl⟩ -
    rw [hw]
    exact ⟨rfl, .stay h.ids⟩
  · rintro ⟨touched, t, hw, hmem, hholds⟩ hfar
    rw [hw, Work.ok_bind, Work.pure_apply]
    simp only [commit_eq hh]
    exact ⟨rfl, .commit h.ids t touched hholds fun x hx => hfar x (mt (hmem x).2 hx)⟩

/-- Removing an archived node that is out of use. -/
theorem purge_change_tracks (id : NodeId k) :
    Tracks h g (h.change do
      match ← Work.purge id with
      | some touched => return (.purged, some touched)
      | none => return (.notArchived, none)) (g.purge id) := by
  have hw := Work.purge_follows hh.refusal hh.contents id
  have hfar := fun x => g.agrees_purge id (x := x)
  unfold change
  rw [run_eq hh, Work.bind_apply]
  revert hw hfar
  unfold Dag.purge
  cases g.archived.get? id with
  | none =>
    rintro ⟨_ | touched, t, hw, hagree, -⟩ -
    · rw [hw]
      exact ⟨rfl, .stay h.ids⟩
    · exact hagree.elim
  | some node =>
    rintro ⟨_ | touched, t, hw, hagree, hholds⟩ hfar
    · exact hagree.elim
    · rw [hw, Work.ok_bind]
      simp only [Work.pure_apply, commit_eq hh]
      exact ⟨rfl, .commit h.ids t touched hholds fun x hx => hfar x (mt (hagree x).2 hx)⟩

end Working

section Serving

variable (hh : h.Holds g) (env : Surroundings k)

include hh

theorem within_holds : (h.within env).Holds g := ⟨hh.refusal, hh.locked, hh.contents⟩

omit hh in
theorem Tracks.replied {r : Except (HierarchyError k) α × Hierarchy k}
    {r' : Except (HierarchyError k) β × Dag k} {f : α → Reply k} {f' : β → Reply k}
    (hr : r.1.map f = r'.1.map f') (hm : Moves h g r.2 r'.2) :
    Tracks h g (replied f r) (Dag.replied f' r') :=
  ⟨congrArg (Except.mapError Failure.refused) hr, hm⟩

theorem delete_tracks (id : NodeId k) :
    Tracks (h.within env) g ((h.within env).delete id) (g.unused env id (g.delete id)) := by
  unfold delete Dag.unused
  rcases requireUnused_within h env id with ⟨e, hc, hu⟩ | ⟨hc, hu⟩ | ⟨c, cs, hc, hu⟩ <;>
    rw [hc, hu]
  · exact ⟨rfl, .stay env.ids⟩
  · exact delete_change_tracks (within_holds hh env) id
  · exact ⟨rfl, .stay env.ids⟩

theorem archive_tracks (id : NodeId k) (hready : env.Ready h.settings.gracePeriod) :
    Tracks (h.within env) g (h.serve env (.archive id))
      (Dag.replied (fun _ => .done) (g.unused env id (g.archive id))) := by
  have hin := within_holds hh env
  have hw := Work.archive_follows hin.refusal hin.contents id
  have hfar := fun x => g.agrees_archive id (x := x)
  obtain ⟨houtage, hjob, n, due, hstep, hadd⟩ := hready
  have hrequest : ∃ q, env.scheduler.request k.name id.toInt due env.job env.now env.queue =
      (.ok (), q) := by
    simp [PurgeScheduler.request, PurgeScheduler.schedule, houtage, JobQueue.enqueue, Job.new,
      hjob]
  obtain ⟨q, hq⟩ := hrequest
  have hstep : (h.within env).settings.gracePeriod.step? = some n := hstep
  unfold Dag.unused
  rcases requireUnused_within h env id with ⟨e, hc, hu⟩ | ⟨hc, hu⟩ | ⟨c, cs, hc, hu⟩ <;>
    simp only [serve, archive, archiveBy, hc, hu, run_eq hin, hstep, hadd, hq, commit_eq hin]
  · exact ⟨rfl, .stay env.ids⟩
  · revert hw hfar
    rcases g.archive id with ⟨e | ⟨⟩, g'⟩
    · rintro ⟨hw, rfl⟩ -
      simp only [hw]
      exact ⟨rfl, .stay env.ids⟩
    · rintro ⟨⟨⟩, t, hw, -, hholds⟩ hfar
      simp only [hw]
      exact ⟨rfl, .commit env.ids t [id] hholds fun x hx => hfar x (by simpa using hx)⟩
  · exact ⟨rfl, .stay env.ids⟩

theorem deleteByCode_tracks (code : String) :
    Tracks (h.within env) g (h.serve env (.deleteByCode code))
      (g.serve h.settings.leafOnlyDetach env (.deleteByCode code)) := by
  have hin := within_holds hh env
  rw [serve, Dag.serve, deleteByCode]
  by_cases hblank : Text.isBlankText code = true
  · rw [if_pos hblank, if_pos hblank]
    exact ⟨rfl, .stay env.ids⟩
  rw [if_neg hblank, if_neg hblank, look, run_eq hin]
  unfold Work.idOfCode
  simp only [Work.bind_apply, Work.ask_apply hin.refusal, Contents.perform, Work.settled_ok,
    Work.ok_bind, hin.contents.active]
  cases g.active.values.find? fun n => n.code == code with
  | none => exact ⟨rfl, .stay env.ids⟩
  | some node =>
    have htracks := delete_tracks hh env node.id
    exact .replied (congrArg _ htracks.1) htracks.2

/-- Every operation on a hierarchy answers what it answers on the graph, and the hierarchy moves
along. -/
theorem serve_tracks (op : Operation k)
    (hready : ∀ id, op = .archive id → env.Ready h.settings.gracePeriod) :
    Tracks (h.within env) g (h.serve env op) (g.serve h.settings.leafOnlyDetach env op) := by
  have hin := within_holds hh env
  cases op with
  | add new =>
    rw [serve, Dag.serve]
    cases hflaw : new.flaw? with
    | some flaw =>
      simp only [add, hflaw]
      exact ⟨rfl, .stay env.ids⟩
    | none =>
      have htracks : Tracks (h.within env) g ((h.within env).add env.millis new)
          ((g.insert (new.toNode (env.idFor new))).1.map fun _ => new.toNode (env.idFor new),
            (g.insert (new.toNode (env.idFor new))).2) := add_tracks hin env.millis new hflaw
      refine .replied ?_ htracks.2
      rw [htracks.1, map_map_const]
  | update node =>
    rw [serve, Dag.serve]
    cases hflaw : node.flaw? with
    | some flaw =>
      simp only [update, hflaw]
      exact ⟨rfl, .stay env.ids⟩
    | none =>
      have htracks := update_tracks hin node hflaw
      refine .replied ?_ htracks.2
      rw [htracks.1, map_map_const]
  | link a d =>
    have htracks := link_tracks hin a d
    exact .replied (congrArg _ htracks.1) htracks.2
  | unlink a d =>
    have htracks := unlink_tracks hin a d
    exact .replied (congrArg _ htracks.1) htracks.2
  | archive id => exact archive_tracks hh env id (hready id rfl)
  | recover id =>
    have htracks := recover_tracks hin id
    exact .replied (congrArg _ htracks.1) htracks.2
  | purge id =>
    rw [serve, Dag.serve, purge]
    rcases consumers_within h env id with ⟨e, hc, hu⟩ | ⟨hc, hu⟩ | ⟨c, cs, hc, hu⟩ <;>
      rw [hc, hu]
    · exact ⟨rfl, .stay env.ids⟩
    · have htracks := purge_change_tracks hin id
      exact .replied (congrArg _ htracks.1) htracks.2
    · exact ⟨rfl, .stay env.ids⟩
  | delete id =>
    have htracks := delete_tracks hh env id
    exact .replied (congrArg _ htracks.1) htracks.2
  | deleteByCode code => exact deleteByCode_tracks hh env code

end Serving

/-! ## What an operation leaves -/

section Locked

variable (hr : h.store.refusal = none) (hl : h.store.locked = true)

include hr hl

theorem change_locked (w : Work k (α × Option (List (NodeId k))))
    (failed : StoreError → HierarchyError k) : (h.change w failed).2 = h := by
  rw [change, MemoryStore.run_locked hr hl]

theorem delete_locked (id : NodeId k) : (h.delete id).2 = h := by
  unfold delete
  split
  · rfl
  · exact change_locked hr hl _ _

/-- On a locked store no operation changes more than the source of ids. -/
theorem serve_locked (env : Surroundings k) (op : Operation k) :
    ∃ ids, (h.serve env op).2 = { h.within env with ids } := by
  cases op with
  | add new =>
    simp only [serve, replied, add]
    split
    · exact ⟨env.ids, rfl⟩
    · split
      · exact ⟨env.ids, change_locked (h := h.within env) hr hl _ _⟩
      · exact ⟨_, change_locked (h := ((h.within env).drawId env.millis).2) hr hl _ _⟩
  | update node =>
    simp only [serve, replied, update]
    split
    · exact ⟨env.ids, rfl⟩
    · exact ⟨env.ids, change_locked (h := h.within env) hr hl _ _⟩
  | link a d => exact ⟨env.ids, change_locked (h := h.within env) hr hl _ _⟩
  | unlink a d => exact ⟨env.ids, change_locked (h := h.within env) hr hl _ _⟩
  | archive id =>
    refine ⟨env.ids, ?_⟩
    rw [serve]
    rcases archive_cases (h := h.within env) hr env.now env.scheduler env.queue env.job id with
      ⟨e, he⟩ | ⟨node, ha, -⟩
    · rw [he]
      rfl
    · exact absurd (ha.unlocked.symm.trans hl) Bool.false_ne_true
  | recover id => exact ⟨env.ids, change_locked (h := h.within env) hr hl _ _⟩
  | purge id =>
    simp only [serve, replied, purge]
    split
    · exact ⟨env.ids, rfl⟩
    · exact ⟨env.ids, rfl⟩
    · exact ⟨env.ids, change_locked (h := h.within env) hr hl _ _⟩
  | delete id => exact ⟨env.ids, delete_locked (h := h.within env) hr hl id⟩
  | deleteByCode code =>
    simp only [serve, replied, deleteByCode, look,
      MemoryStore.run_locked (s := (h.within env).store) hr hl]
    split <;> exact ⟨env.ids, rfl⟩

end Locked

/-- An archiving takes place, or changes nothing because it is refused or its purge cannot be
scheduled, or is cut off and locks the store. -/
theorem serve_archive_cases (hh : h.Holds g) (env : Surroundings k) (id : NodeId k) :
    (∃ g', (g' = g ∨ g' = (g.archive id).2) ∧
      Moves (h.within env) g (h.serve env (.archive id)).2 g') ∨
      (h.serve env (.archive id)).2 = { h.within env with store := h.store.lock } := by
  have hin := within_holds hh env
  rw [serve]
  rcases archive_cases hin.refusal env.now env.scheduler env.queue env.job id with
    ⟨e, hr⟩ | ⟨node, ha, ⟨-, hr⟩ | ⟨due, job, -, -, -, hr⟩⟩ <;>
    rw [hr]
  · exact .inl ⟨g, .inl rfl, .stay env.ids⟩
  · exact .inr rfl
  · have hw := Work.archive_follows hin.refusal hin.contents id
    have hfar := fun x => g.agrees_archive id (x := x)
    revert hw hfar
    rw [Work.archive_apply hin.refusal, ha.active]
    rcases g.archive id with ⟨e | ⟨⟩, g'⟩
    · rintro ⟨hw, -⟩
      cases hw
    · rintro ⟨⟨⟩, t, hw, -, hholds⟩ hfar
      obtain rfl := (Prod.mk.inj (Except.ok.inj hw)).2
      refine .inl ⟨g', .inr rfl, .commit env.ids _ [id] hholds fun x hx => ?_⟩
      exact hfar x (by simpa using hx)

/-- Every operation leaves the graph where it was, moves along with it, or is cut off and locks the
store. -/
theorem serve_cases (hr : h.store.refusal = none) (hc : h.store.contents.Holds g)
    (env : Surroundings k) (op : Operation k) :
    (∃ g', Moves (h.within env) g (h.serve env op).2 g') ∨
      (h.serve env op).2 = { h.within env with store := h.store.lock } := by
  cases hl : h.store.locked with
  | true =>
    obtain ⟨ids, hids⟩ := serve_locked hr hl env op
    exact .inl ⟨g, hids ▸ .stay ids⟩
  | false =>
    have hh : h.Holds g := ⟨hr, hl, hc⟩
    by_cases harchive : ∃ id, op = .archive id
    · obtain ⟨id, rfl⟩ := harchive
      exact (serve_archive_cases hh env id).imp_left fun ⟨g', _, hmoves⟩ => ⟨g', hmoves⟩
    · exact .inl ⟨_, (serve_tracks hh env op fun id e => absurd ⟨id, e⟩ harchive).2⟩

/-- What an operation leaves holds a graph again, whatever became of the operation. -/
theorem serve_holds (hr : h.store.refusal = none) (hc : h.store.contents.Holds g)
    (env : Surroundings k) (op : Operation k)
    (hfits : (h.serve env op).2.store.contents.Fits) :
    ∃ g', (h.serve env op).2.store.contents.Holds g' := by
  rcases serve_cases hr hc env op with ⟨g', hmoves⟩ | hcut
  · exact ⟨g', hmoves.contents hc hfits⟩
  · rw [hcut]
    exact ⟨g, hc⟩

/-! ## Runs -/

/-- Every run of operations on a hierarchy answers what it answers on the graph, and the hierarchy
holds the graph after it. -/
theorem run_tracks (steps : List (Surroundings k × Operation k)) (hh : h.Holds g)
    (hready : ∀ env id, (env, .archive id) ∈ steps → env.Ready h.settings.gracePeriod)
    (hfits : ∀ n, (h.run (steps.take n)).2.store.contents.Fits) :
    (h.run steps).1 = (g.run h.settings.leafOnlyDetach steps).1 ∧
      (h.run steps).2.Holds (g.run h.settings.leafOnlyDetach steps).2 := by
  induction steps generalizing h g with
  | nil => exact ⟨rfl, hh⟩
  | cons step rest ih =>
    obtain ⟨env, op⟩ := step
    obtain ⟨hanswer, hmoves⟩ := serve_tracks hh env op fun id e =>
      hready env id (e ▸ List.mem_cons_self)
    have hsettings : (h.serve env op).2.settings = h.settings := hmoves.settings
    have hholds := hmoves.holds (within_holds hh env) (hfits 1)
    obtain ⟨hanswers, hlast⟩ := ih hholds
      (fun env id hmem => hsettings ▸ hready env id (List.mem_cons_of_mem _ hmem))
      fun n => hfits (n + 1)
    rw [hsettings] at hanswers hlast
    exact ⟨congrArg₂ List.cons hanswer hanswers, hlast⟩

/-- What a run leaves holds some graph, whatever became of its operations. -/
theorem run_holds (steps : List (Surroundings k × Operation k)) (hr : h.store.refusal = none)
    (hc : h.store.contents.Holds g)
    (hfits : ∀ n, (h.run (steps.take n)).2.store.contents.Fits) :
    ∃ g', (h.run steps).2.store.contents.Holds g' := by
  induction steps generalizing h g with
  | nil => exact ⟨g, hc⟩
  | cons step rest ih =>
    obtain ⟨env, op⟩ := step
    obtain ⟨g', hc'⟩ := serve_holds hr hc env op (hfits 1)
    exact ih ((h.serve_alike env op).refusal.trans hr) hc' fun n => hfits (n + 1)

theorem fits_of_le_length {steps : List (Surroundings k × Operation k)}
    (hfits : ∀ n ≤ steps.length, (h.run (steps.take n)).2.store.contents.Fits) (n : Nat) :
    (h.run (steps.take n)).2.store.contents.Fits := by
  rcases Nat.le_total n steps.length with hle | hge
  · exact hfits n hle
  · rw [List.take_of_length_le hge, ← List.take_length (l := steps)]
    exact hfits _ le_rfl

/-- A hierarchy that started empty answers every run as the graph does. After every operation of the
run the records are the nodes of the graph, and the rows are one for each pair of nodes of which
edges lead from the first to the second, at their distance. Tables have no bound of their own, so
that the rows fit a memory is said of each state. -/
theorem run_refines (h : Hierarchy k) (hstart : h.store = {})
    (steps : List (Surroundings k × Operation k))
    (hready : ∀ env id, (env, .archive id) ∈ steps → env.Ready h.settings.gracePeriod)
    (hfits : ∀ n, (h.run (steps.take n)).2.store.contents.Fits) :
    (h.run steps).1 = (Dag.run {} h.settings.leafOnlyDetach steps).1 ∧
      ∀ n, let s := (h.run (steps.take n)).2.store.contents
        let g := (Dag.run {} h.settings.leafOnlyDetach (steps.take n)).2
        s.active = g.active ∧ s.archived = g.archived ∧ (s.rows.map Path.pair).Nodup ∧
          ∀ x y n, (∃ depth, ⟨x, y, depth⟩ ∈ s.rows ∧ depth.toNat = n) ↔
            g.Knows x ∧ g.Knows y ∧ IsDistance g.edge n x y := by
  have hempty : h.Holds {} := by
    refine ⟨?_, ?_, ?_⟩ <;> rw [hstart]
    exact .empty
  refine ⟨(run_tracks steps hempty hready hfits).1, fun n => ?_⟩
  obtain ⟨-, -, -, hholds⟩ := run_tracks (steps.take n) hempty
    (fun env id hmem => hready env id (List.mem_of_mem_take hmem))
    fun m => by rw [List.take_take]; exact hfits _
  refine ⟨hholds.active, hholds.archived, DepthMap.nodup_rows _, fun x y n => ?_⟩
  simp only [Contents.rows, DepthMap.mk_mem_rows]
  rw [← DepthMap.distance?_eq_some, hholds.distance]
  refine and_congr_right fun hx => (and_iff_right_of_imp fun hd => ?_).symm
  exact hholds.wellFormed.knows_of_reflTransGen hx hd.reflTransGen

/-- Three nodes in a row, the lower edge first, of which the middle one is archived. -/
def chain : List (Surroundings ⟨"tag"⟩ × Operation ⟨"tag"⟩) :=
  [.add { code := "a", name := "a" }, .add { id := some ⟨2⟩, code := "b", name := "b" },
    .add { id := some ⟨3⟩, code := "c", name := "c" }, .link ⟨2⟩ ⟨3⟩, .link ⟨1⟩ ⟨2⟩,
    .archive ⟨2⟩].map fun op => (.calm, op)

/-- The ends of the row are at distance two in the graph, as the row of the two says. -/
theorem run_refines_chain : let g := (Dag.run {} true chain).2
    g.Knows ⟨1⟩ ∧ g.Knows ⟨3⟩ ∧ IsDistance g.edge 2 ⟨1⟩ ⟨3⟩ := by
  have hready : ∀ env id, (env, .archive id) ∈ chain →
      env.Ready ({ cache := .memory {} } : Hierarchy ⟨"tag"⟩).settings.gracePeriod := by
    intro env id hmem
    obtain ⟨op, -, e⟩ := List.mem_map.1 hmem
    obtain ⟨rfl, -⟩ := Prod.mk.inj e
    exact ⟨rfl, rfl, _, _, rfl, rfl⟩
  have hfits : ∀ n, (run { cache := .memory {} } (chain.take n)).2.store.contents.Fits := by
    intro n
    unfold Contents.Fits
    rcases Nat.lt_or_ge n 6 with hlt | hge
    · interval_cases n <;> decide +kernel
    · rw [List.take_of_length_le hge]
      decide +kernel
  have hrows := ((run_refines { cache := .memory {} } rfl chain hready hfits).2 6).2.2.2
  exact (hrows ⟨1⟩ ⟨3⟩ 2).1 ⟨2, by decide +kernel, rfl⟩

end Lineage.Hierarchy
