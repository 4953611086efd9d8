import Lineage.Proofs.Coherence
import Lineage.Proofs.Records

/-!
# An archived node comes back as it was

Between its archiving and its recovery a node keeps its record, its id and its code, and it gains no
edge. It loses the edges that are removed, and those to nodes that are removed.

* `Operation.Frees`, `Operation.Severs`: what an operation that took place did to an archived node
  and to an edge.
* `Dag.Retains`: an archived node is as it was, and so are the edges at it that were not cut. Every
  operation keeps to this (`Dag.WellFormed.serve_retains`, `Hierarchy.serve_retains`), and every run
  (`World.run_retains`).
* `World.Meets`: somewhere in a run.
* `World.run_recovered`: the node and its edges after the recovery.
-/

namespace Lineage

variable {k : Kind}

/-! ## What an operation did -/

namespace Operation

/-- Whether an operation took a node out of the archive. -/
def Frees (x : NodeId k) (answer : Except (Failure k) (Reply k)) : Operation k → Prop
  | .recover id => x = id ∧ answer = .ok .done
  | .purge id => x = id ∧ answer = .ok (.purge .purged)
  | _ => False

/-- Whether an operation removed a node, of which it names the id or, while the node is active, the
code. A blank code names no node. -/
def Removes (active : Table (NodeId k) (Node k)) (y : NodeId k)
    (answer : Except (Failure k) (Reply k)) : Operation k → Prop
  | .purge id => y = id ∧ answer = .ok (.purge .purged)
  | .delete id => y = id ∧ answer = .ok .done
  | .deleteByCode code => Text.isBlankText code = false ∧ answer = .ok .done ∧
      ∃ node, active.get? y = some node ∧ node.code = code
  | _ => False

/-- Whether an operation removed an edge, or a node at one of its ends. -/
def Severs (active : Table (NodeId k) (Node k)) (a d : NodeId k)
    (answer : Except (Failure k) (Reply k)) (op : Operation k) : Prop :=
  (op = .unlink a d ∧ answer = .ok .done) ∨ op.Removes active a answer ∨ op.Removes active d answer

variable {active : Table (NodeId k) (Node k)} {a d x y : NodeId k}
  {answer : Except (Failure k) (Reply k)}

theorem severs_unlink : (unlink x y).Severs active a d answer ↔
    (a = x ∧ d = y) ∧ answer = .ok .done := by
  simp [Severs, Removes, eq_comm]

theorem severs_purge : (purge x).Severs active a d answer ↔
    (a = x ∨ d = x) ∧ answer = .ok (.purge .purged) := by
  simp [Severs, Removes, or_and_right]

theorem severs_delete : (delete x).Severs active a d answer ↔
    (a = x ∨ d = x) ∧ answer = .ok .done := by
  simp [Severs, Removes, or_and_right]

end Operation

/-! ## Graphs -/

namespace Dag

variable {g g' g'' : Dag k} {x y : NodeId k} {node : Node k}
  {cut cut' : NodeId k → NodeId k → Prop}

/-- The archived node with an id is as it was, and the edges at it are those that were not cut. -/
structure Retains (g g' : Dag k) (x : NodeId k) (cut : NodeId k → NodeId k → Prop) : Prop where
  archived : g'.archived.get? x = g.archived.get? x
  edge : ∀ a d, a = x ∨ d = x → (g'.edge a d ↔ g.edge a d ∧ ¬ cut a d)

namespace Retains

theorem of_edge (harchived : g'.archived.get? x = g.archived.get? x) (hedge : g'.edge = g.edge)
    (hcut : ∀ a d, ¬ cut a d) : g.Retains g' x cut :=
  ⟨harchived, fun a d _ => by rw [hedge]; exact (and_iff_left (hcut a d)).symm⟩

theorem refl (hcut : ∀ a d, ¬ cut a d) : g.Retains g x cut := .of_edge rfl rfl hcut

theorem drop (hy : x ≠ y) (hcut : ∀ a d, cut a d ↔ a = y ∨ d = y) : g.Retains (g.drop y) x cut where
  archived := Table.get?_erase_of_ne hy ..
  edge a d _ := by
    rw [hcut, not_or]
    rfl

theorem trans (hg : g.Retains g' x cut) (hg' : g'.Retains g'' x cut') :
    g.Retains g'' x fun a d => cut a d ∨ cut' a d where
  archived := hg'.archived.trans hg.archived
  edge a d hx := by rw [hg'.edge a d hx, hg.edge a d hx, and_assoc, not_or]

end Retains

theorem replied_eq_done {r : Except (HierarchyError k) Unit × Dag k} :
    (replied (fun _ => .done) r).1 = .ok .done ↔ r.1 = .ok () := by
  rcases r with ⟨_ | _, _⟩
  · exact iff_of_false (fun he => by cases he) fun he => by cases he
  · exact iff_of_true rfl rfl

theorem replied_eq_purged {r : Except (HierarchyError k) PurgeOutcome × Dag k} :
    (replied .purge r).1 = .ok (.purge .purged) ↔ r.1 = .ok .purged := by
  rcases r with ⟨_ | _, _⟩
  · exact iff_of_false (fun he => by cases he) fun he => by cases he
  · simp [replied, Except.map, Except.mapError]

/-- A code that is found among the active nodes is that of one of them alone. -/
theorem WellFormed.exists_code_iff (hg : g.WellFormed) {code : String}
    (hfind : (g.active.values.find? fun n => n.code == code) = some node) :
    (∃ n, g.active.get? y = some n ∧ n.code = code) ↔ y = node.id := by
  obtain ⟨id, hid⟩ := Table.mem_values.1 (List.mem_of_find?_eq_some hfind)
  have hcode : node.code = code := by simpa using List.find?_some hfind
  obtain rfl := hg.own id node (node?_of_active hid)
  constructor
  · rintro ⟨n, hn, hcode'⟩
    exact hg.code_unique y node.id code ⟨n, node?_of_active hn, hcode'⟩
      ⟨node, node?_of_active hid, hcode⟩
  · rintro rfl
    exact ⟨node, hid, hcode⟩

theorem unlink_retains (leafOnly : Bool) (a d : NodeId k)
    (hcut : ∀ y z, cut y z ↔ (y = a ∧ z = d) ∧ (g.unlink leafOnly a d).1 = .ok ()) :
    g.Retains (g.unlink leafOnly a d).2 x cut := by
  revert hcut
  unfold unlink
  split_ifs
  · exact fun hcut => .refl fun y z hc => by cases ((hcut y z).1 hc).2
  · intro hcut
    refine ⟨rfl, fun y z _ => and_congr_right fun _ => ?_⟩
    rw [hcut, and_iff_left rfl, Ne, Prod.mk.injEq]
  · exact fun hcut => .refl fun y z hc => by cases ((hcut y z).1 hc).2

theorem recover_retains (id : NodeId k) (hkept : ¬ (x = id ∧ (g.recover id).1 = .ok ()))
    (hcut : ∀ a d, ¬ cut a d) : g.Retains (g.recover id).2 x cut := by
  revert hkept
  unfold recover
  cases g.archived.get? id with
  | none => exact fun _ => .refl hcut
  | some n =>
    intro hkept
    have hne : x ≠ id := fun he => hkept ⟨he, rfl⟩
    exact .of_edge (Table.get?_erase_of_ne hne ..) rfl hcut

theorem purge_retains (id : NodeId k) (hkept : ¬ (x = id ∧ (g.purge id).1 = .ok .purged))
    (hcut : ∀ a d, cut a d ↔ (a = id ∨ d = id) ∧ (g.purge id).1 = .ok .purged) :
    g.Retains (g.purge id).2 x cut := by
  revert hkept hcut
  unfold purge
  cases g.archived.get? id with
  | none => exact fun _ hcut => .refl fun a d hc => by cases ((hcut a d).1 hc).2
  | some n =>
    intro hkept hcut
    have hne : x ≠ id := fun he => hkept ⟨he, rfl⟩
    exact .drop hne fun a d => (hcut a d).trans (and_iff_left rfl)

section Archived

variable (hg : g.WellFormed) (hx : g.archived.get? x = some node)

include hg hx

theorem WellFormed.ne_of_archived (hy : g.active.get? y ≠ none) : x ≠ y :=
  fun he => hy (he ▸ hg.not_active hx)

/-- An archived node gets no edges. -/
theorem WellFormed.link_retains (a d : NodeId k) (hcut : ∀ a d, ¬ cut a d) :
    g.Retains (g.link a d).2 x cut := by
  unfold link
  split_ifs with hd ha
  iterate 4 exact .refl hcut
  refine ⟨rfl, fun y z hyz => ?_⟩
  have hnew : ¬ (y = a ∧ z = d) := by
    rintro ⟨rfl, rfl⟩
    rcases hyz with rfl | rfl
    · exact ha (hg.not_active hx)
    · exact hd (hg.not_active hx)
  exact (or_iff_left hnew).trans (and_iff_left (hcut y z)).symm

theorem WellFormed.archive_retains (id : NodeId k) (hcut : ∀ a d, ¬ cut a d) :
    g.Retains (g.archive id).2 x cut := by
  unfold Dag.archive
  cases hn : g.active.get? id with
  | none => exact .refl hcut
  | some n =>
    have hne := hg.ne_of_archived hx (y := id) (by rw [hn]; exact Option.some_ne_none n)
    exact .of_edge (Table.get?_insert_of_ne hne ..) rfl hcut

/-- Only active nodes are deleted. -/
theorem WellFormed.delete_retains (env : Surroundings k) (id : NodeId k)
    (hcut : ∀ a d, cut a d ↔ (a = id ∨ d = id) ∧ (g.unused env id (g.delete id)).1 = .ok ()) :
    g.Retains (g.unused env id (g.delete id)).2 x cut := by
  revert hcut
  unfold unused delete
  rcases env.consumersOf id with e | _ | ⟨c, cs⟩
  · exact fun hcut => .refl fun a d hc => by cases ((hcut a d).1 hc).2
  · cases hn : g.active.get? id with
    | none => exact fun hcut => .refl fun a d hc => by cases ((hcut a d).1 hc).2
    | some n =>
      have hne := hg.ne_of_archived hx (y := id) (by rw [hn]; exact Option.some_ne_none n)
      exact fun hcut => .drop hne fun a d => (hcut a d).trans (and_iff_left rfl)
  · exact fun hcut => .refl fun a d hc => by cases ((hcut a d).1 hc).2

/-- An archived node that is neither recovered nor purged stays as it is, and of the edges at it
those are gone that the operation severed. -/
theorem WellFormed.serve_retains (leafOnly : Bool) (env : Surroundings k) {op : Operation k}
    (harchive : ∀ id, op ≠ .archive id) (hkept : ¬ op.Frees x (g.serve leafOnly env op).1) :
    g.Retains (g.serve leafOnly env op).2 x fun a d =>
      op.Severs g.active a d (g.serve leafOnly env op).1 := by
  cases op with
  | add new =>
    have hcut : ∀ r a d, ¬ (Operation.add new).Severs g.active a d r := by
      simp [Operation.Severs, Operation.Removes]
    simp only [serve]
    split
    · exact .refl (hcut _)
    · unfold insert
      split_ifs <;> exact .of_edge rfl rfl (hcut _)
  | update node =>
    have hcut : ∀ r a d, ¬ (Operation.update node).Severs g.active a d r := by
      simp [Operation.Severs, Operation.Removes]
    simp only [serve]
    split
    · exact .refl (hcut _)
    · unfold overwrite
      split_ifs <;> exact .of_edge rfl rfl (hcut _)
  | link a d => exact hg.link_retains hx a d (by simp [Operation.Severs, Operation.Removes])
  | unlink a d =>
    refine unlink_retains leafOnly a d fun y z => ?_
    rw [Operation.severs_unlink, serve, replied_eq_done]
  | archive id => exact absurd rfl (harchive id)
  | recover id =>
    rw [Operation.Frees, serve, replied_eq_done] at hkept
    exact recover_retains id hkept (by simp [Operation.Severs, Operation.Removes])
  | purge id =>
    revert hkept
    simp only [Operation.Frees, Operation.severs_purge, serve]
    rcases env.consumersOf id with e | _ | ⟨c, cs⟩
    · exact fun _ => .refl (by simp)
    · simp only [replied_eq_purged]
      exact fun hkept => purge_retains id hkept fun _ _ => Iff.rfl
    · exact fun _ => .refl (by simp)
  | delete id =>
    refine hg.delete_retains hx env id fun a d => ?_
    rw [Operation.severs_delete, serve, replied_eq_done]
  | deleteByCode code =>
    simp only [serve, Operation.Severs, Operation.Removes, reduceCtorEq, false_and, false_or]
    split_ifs with hblank
    · exact .refl (by simp [hblank])
    cases hfind : g.active.values.find? fun n => n.code == code with
    | none => exact .refl (by simp)
    | some node =>
      refine hg.delete_retains hx env node.id fun a d => ?_
      simp only [hg.exists_code_iff hfind, replied_eq_done, hblank, true_and, ← and_or_left]
      exact and_comm

end Archived

end Dag

/-! ## Hierarchies -/

/-- The contents after an archived node was made active again. -/
def Contents.withRecovered (s : Contents k) (id : NodeId k) (node : Node k) : Contents k :=
  { s with active := s.active.insert id node, archived := s.archived.erase id }

/-- Nothing else has the id or the code of an archived node. -/
theorem Contents.Holds.alone {s : Contents k} {g : Dag k} {x : NodeId k} {node : Node k}
    (h : s.Holds g) (hx : g.archived.get? x = some node) : s.archived.get? x = some node ∧
      s.active.get? x = none ∧ ∀ y, s.records.HasCode y node.code → y = x := by
  have harchived : s.archived.get? x = some node := h.archived ▸ hx
  have hrecords := h.records_wellFormed
  refine ⟨harchived, hrecords.not_active harchived, fun y hy => ?_⟩
  exact hrecords.code_unique y x node.code hy ⟨node, hrecords.node?_of_archived harchived, rfl⟩

/-- To archive an active node and to recover it changes nothing. -/
theorem Contents.withRecovered_withArchived {s : Contents k} {id : NodeId k} {node : Node k}
    (hactive : s.active.get? id = some node) (harchived : s.archived.get? id = none) :
    (s.withArchived id node).withRecovered id node = s := by
  have hback : (s.active.erase id).insert id node = s.active := Table.ext_get? fun x => by
    rw [Table.get?_insert, Table.get?_erase]
    split
    case isTrue he => rw [he, hactive]
    case isFalse => rfl
  have hgone : (s.archived.insert id node).erase id = s.archived := Table.ext_get? fun x => by
    rw [Table.get?_erase, Table.get?_insert]
    split
    case isTrue he => rw [he, harchived]
    case isFalse => rfl
  simp only [withRecovered, withArchived, hback, hgone]

theorem Work.recover_apply {s : MemoryStore k} (hs : s.refusal = none) (id : NodeId k)
    (t : Contents k) :
    Work.recover id s t =
      match t.archived.get? id with
      | none => .error (.notFound (.archived id))
      | some node => .ok ((), t.withRecovered id node) := by
  unfold Work.recover
  simp only [bind_apply, ask_apply hs, Contents.perform, settled_ok, ok_bind, Contents.restoreNode]
  cases t.archived.get? id <;> rfl

namespace Hierarchy

variable {h h' : Hierarchy k} {g : Dag k} {x : NodeId k} {node : Node k} {reply : Reply k}

theorem Holds.of_store (hh : h.Holds g) (hs : h'.store = h.store) : h'.Holds g :=
  ⟨hs ▸ hh.refusal, hs ▸ hh.locked, hs ▸ hh.contents⟩

/-- What an archiving that took place leaves. -/
theorem contents_of_archived (hr : h.store.refusal = none) {env : Surroundings k}
    (hok : (h.serve env (.archive x)).1 = .ok reply) :
    h.store.locked = false ∧ ∃ node, h.store.contents.active.get? x = some node ∧
      (h.serve env (.archive x)).2.store =
        { h.store with contents := h.store.contents.withArchived x node } := by
  have hin : (h.within env).store.refusal = none := hr
  revert hok
  rw [serve]
  rcases archive_cases hin env.now env.scheduler env.queue env.job x with
    ⟨e, hends⟩ | ⟨node, ha, ⟨-, hends⟩ | ⟨due, job, -, -, -, hends⟩⟩ <;> rw [hends]
  · intro hok
    cases hok
  · intro hok
    cases hok
  · exact fun _ => ⟨ha.unlocked, node, ha.active, committed_store ..⟩

/-- What a recovery that took place leaves. -/
theorem contents_of_recovered (hr : h.store.refusal = none) {env : Surroundings k}
    (hok : (h.serve env (.recover x)).1 = .ok reply) :
    h.store.locked = false ∧ ∃ node, h.store.contents.archived.get? x = some node ∧
      (h.serve env (.recover x)).2.store =
        { h.store with contents := h.store.contents.withRecovered x node } := by
  have hin : (h.within env).store.refusal = none := hr
  have hs : (h.within env).store = h.store := rfl
  revert hok
  simp only [serve, recover, change]
  by_cases hl : h.store.locked = true
  · rw [MemoryStore.run_locked hin hl]
    intro hok
    cases hok
  have hl : h.store.locked = false := Bool.not_eq_true _ ▸ hl
  rw [MemoryStore.run_unlocked hin hl, Work.bind_apply, Work.recover_apply hin, hs]
  cases hn : h.store.contents.archived.get? x with
  | none =>
    intro hok
    cases hok
  | some node =>
    simp only [Work.pure_apply, Work.ok_bind, MemoryStore.commit_eq hr]
    exact fun _ => ⟨hl, node, rfl, invalidate_store _ _⟩

/-- An archived node that is neither recovered nor purged stays as it is, whatever is asked of the
hierarchy, and of the edges at it those are gone that the operation severed. -/
theorem serve_retains (hh : h.Holds g) (hx : g.archived.get? x = some node)
    (env : Surroundings k) {op : Operation k}
    (hopen : (h.serve env op).2.store.locked = false)
    (hfits : (h.serve env op).2.store.contents.Fits)
    (hkept : ¬ op.Frees x (h.serve env op).1) :
    ∃ g', (h.serve env op).2.Holds g' ∧ g.Retains g' x fun a d =>
      op.Severs h.store.contents.active a d (h.serve env op).1 := by
  have hg := hh.contents.wellFormed
  -- An archiving may be refused where the graph takes it, so it does not track the graph.
  by_cases harchive : ∃ id, op = .archive id
  · obtain ⟨id, rfl⟩ := harchive
    have hcut : ∀ a d, ¬ (Operation.archive id).Severs h.store.contents.active a d
        (h.serve env (.archive id)).1 := by simp [Operation.Severs, Operation.Removes]
    rcases serve_archive_cases hh env id with ⟨g', hg', hmoves⟩ | hcutOff
    · refine ⟨g', hmoves.holds (within_holds hh env) hfits, ?_⟩
      rcases hg' with rfl | rfl
      · exact .refl hcut
      · exact hg.archive_retains hx id hcut
    · rw [hcutOff] at hopen
      cases hopen
  · have hop : ∀ id, op ≠ .archive id := fun id he => harchive ⟨id, he⟩
    obtain ⟨hanswer, hmoves⟩ := serve_tracks hh env op fun id he => absurd he (hop id)
    rw [hanswer] at hkept ⊢
    rw [hh.contents.active]
    exact ⟨_, hmoves.holds (within_holds hh env) hfits, hg.serve_retains hx _ env hop hkept⟩

theorem holds_of_archived (hh : h.Holds g) {env : Surroundings k}
    (hok : (h.serve env (.archive x)).1 = .ok reply)
    (hfits : (h.serve env (.archive x)).2.store.contents.Fits) :
    ∃ g', (h.serve env (.archive x)).2.Holds g' ∧ g'.edge = g.edge := by
  rcases serve_archive_cases hh env x with ⟨g', hg', hmoves⟩ | hcutOff
  · refine ⟨g', hmoves.holds (within_holds hh env) hfits, ?_⟩
    rcases hg' with rfl | rfl
    · rfl
    · unfold Dag.archive
      split <;> rfl
  · obtain ⟨hl, node, -, hs⟩ := contents_of_archived hh.refusal hok
    have hlocked := congrArg MemoryStore.locked hs
    rw [hcutOff] at hlocked
    exact absurd (hlocked.trans hl) Bool.false_ne_true.symm

/-! ## Lookups -/

theorem change_store_congr {α : Type} (hs : h.store = h'.store)
    (w : Work k (α × Option (List (NodeId k)))) (failed : StoreError → HierarchyError k) :
    (h.change w failed).2.store = (h'.change w failed).2.store := by
  unfold change
  rw [hs]
  rcases w.run h'.store with _ | ⟨⟨a, _ | touched⟩, t⟩
  · exact hs
  · exact hs
  · dsimp only
    cases h'.store.commit t with
    | error e => exact hs
    | ok store => simp only [invalidate_store]

/-- A lookup leaves the store as it is, or an edge is added beside it. -/
theorem find_store (h : Hierarchy k) (key : Key k) : (h.find key).2.store = h.store ∨
    ∃ a d, (h.find key).2.store = (h.serve .calm (.link a d)).2.store := by
  have hrival : h.letRivalIn.store = h.store ∨
      ∃ a d, h.letRivalIn.store = (h.serve .calm (.link a d)).2.store := by
    unfold letRivalIn
    split
    case h_1 a d _ _ =>
      have hquiet : { h with rival := none }.store = (h.within .calm).store := rfl
      exact .inr ⟨a, d, change_store_congr hquiet _ _⟩
    case h_2 => exact .inl rfl
  have hread : ∀ hit w, (h.readThrough hit w).2.store = h.store ∨
      (h.readThrough hit w).2.store = h.letRivalIn.store := by
    intro hit w
    unfold readThrough
    split
    · exact .inl rfl
    · cases h.look w with
      | error e => exact .inl rfl
      | ok v => exact .inr (fill_store ..)
  have hfind : (h.find key).2.store = h.store ∨ (h.find key).2.store = h.letRivalIn.store := by
    cases key <;> exact hread _ _
  rcases hfind with hs | hs
  · exact .inl hs
  · rwa [hs]

end Hierarchy

/-! ## Runs -/

namespace World

variable {w : World k} {g : Dag k} {x : NodeId k} {node : Node k} {e : Event k}

/-- What the store holds. -/
def contents (w : World k) : Contents k := w.hierarchy.store.contents

/-- Whether an event takes a node out of the archive. -/
def Frees (x : NodeId k) (w : World k) : Event k → Prop
  | .serve env op => op.Frees x (w.hierarchy.serve env op).1
  | _ => False

/-- Whether an event removes an edge, or a node at one of its ends. -/
def Severs (a d : NodeId k) (w : World k) : Event k → Prop
  | .serve env op => op.Severs w.contents.active a d (w.hierarchy.serve env op).1
  | _ => False

/-- Whether some event of a run is of a kind, given the world in which it happens. -/
def Meets (P : World k → Event k → Prop) (w : World k) : List (Event k) → Prop
  | [] => False
  | e :: rest => P w e ∨ (w.step e).Meets P rest

theorem Meets.append {P : World k → Event k → Prop} {events : List (Event k)}
    (h : w.Meets P events) (events' : List (Event k)) : w.Meets P (events ++ events') := by
  induction events generalizing w with
  | nil => exact h.elim
  | cons e rest ih => exact h.imp_right ih

/-- An event serves an operation; or it cuts no edge, and leaves the store as it is or as a new
edge does. -/
theorem step_cases (w : World k) (e : Event k) : (∃ env op, e = .serve env op) ∨
    (∀ a d, ¬ w.Severs a d e) ∧ ((w.step e).hierarchy.store = w.hierarchy.store ∨
      ∃ a d, (w.step e).hierarchy.store = (w.hierarchy.serve .calm (.link a d)).2.store) := by
  cases e with
  | serve env op => exact .inl ⟨env, op, rfl⟩
  | find key => exact .inr ⟨fun _ _ => not_false, w.hierarchy.find_store key⟩
  | lose ids codes =>
    refine .inr ⟨fun _ _ => not_false, .inl ?_⟩
    simp only [step, Hierarchy.lose]
    split <;> rfl
  | expire keys =>
    refine .inr ⟨fun _ _ => not_false, .inl ?_⟩
    simp only [step, Hierarchy.expire]
    split <;> rfl
  | begin => exact .inr ⟨fun _ _ => not_false, .inl rfl⟩
  | read i key =>
    refine .inr ⟨fun _ _ => not_false, .inl ?_⟩
    simp only [step]
    split
    · split <;> rfl
    · rfl
  | put i =>
    refine .inr ⟨fun _ _ => not_false, .inl ?_⟩
    simp only [step]
    split
    · exact Hierarchy.keep_store ..
    · rfl
  | recheck i =>
    refine .inr ⟨fun _ _ => not_false, .inl ?_⟩
    simp only [step]
    split
    · simp only [Hierarchy.recheck]
      split
      · rfl
      · rw [Hierarchy.evict_store]
    · rfl
  | fill i =>
    refine .inr ⟨fun _ _ => not_false, .inl ?_⟩
    simp only [step]
    split
    · exact Hierarchy.fill_store ..
    · rfl

/-- An event leaves the store as it is or as an operation does. -/
theorem step_store (w : World k) (e : Event k) :
    (w.step e).hierarchy.store = w.hierarchy.store ∨
      ∃ env op, (w.step e).hierarchy.store = (w.hierarchy.serve env op).2.store := by
  rcases w.step_cases e with ⟨env, op, rfl⟩ | ⟨-, hs | ⟨a, d, hs⟩⟩
  · exact .inr ⟨env, op, rfl⟩
  · exact .inl hs
  · exact .inr ⟨.calm, .link a d, hs⟩

theorem step_refusal (w : World k) (e : Event k) :
    (w.step e).hierarchy.store.refusal = w.hierarchy.store.refusal := by
  rcases w.step_store e with hs | ⟨env, op, hs⟩
  · rw [hs]
  · rw [hs, (w.hierarchy.serve_alike env op).refusal]

theorem run_refusal (w : World k) (events : List (Event k)) :
    (w.run events).hierarchy.store.refusal = w.hierarchy.store.refusal := by
  induction events generalizing w with
  | nil => rfl
  | cons e rest ih => exact (ih (w.step e)).trans (w.step_refusal e)

/-- No event opens a locked store. -/
theorem step_locked (hr : w.hierarchy.store.refusal = none)
    (hl : w.hierarchy.store.locked = true) (e : Event k) :
    (w.step e).hierarchy.store.locked = true := by
  rcases w.step_store e with hs | ⟨env, op, hs⟩
  · rw [hs, hl]
  · obtain ⟨ids, hids⟩ := Hierarchy.serve_locked hr hl env op
    rw [hs, hids]
    exact hl

theorem run_locked (hr : w.hierarchy.store.refusal = none)
    (hl : w.hierarchy.store.locked = true) (events : List (Event k)) :
    (w.run events).hierarchy.store.locked = true := by
  induction events generalizing w with
  | nil => exact hl
  | cons e rest ih => exact ih ((w.step_refusal e).trans hr) (step_locked hr hl e)

/-- A store that is open at the end of a run was open all the while. -/
theorem open_of_run (hr : w.hierarchy.store.refusal = none) {events : List (Event k)}
    (hopen : (w.run events).hierarchy.store.locked = false) :
    w.hierarchy.store.locked = false := by
  by_contra hl
  have hlast := run_locked hr (by simpa using hl) events
  exact absurd (hopen.symm.trans hlast) Bool.false_ne_true

theorem run_append (w : World k) (events events' : List (Event k)) :
    w.run (events ++ events') = (w.run events).run events' := List.foldl_append

/-- What an event leaves holds a graph again. -/
theorem step_holds (hr : w.hierarchy.store.refusal = none) (hc : w.contents.Holds g) (e : Event k)
    (hfits : (w.step e).contents.Fits) : ∃ g', (w.step e).contents.Holds g' := by
  rw [contents] at hfits ⊢
  rcases w.step_store e with hs | ⟨env, op, hs⟩
  · rw [hs]
    exact ⟨g, hc⟩
  · rw [hs] at hfits ⊢
    exact Hierarchy.serve_holds hr hc env op hfits

theorem run_holds (hr : w.hierarchy.store.refusal = none) (hc : w.contents.Holds g)
    (events : List (Event k)) (hfits : ∀ l, l <+: events → (w.run l).contents.Fits) :
    ∃ g', (w.run events).contents.Holds g' := by
  induction events generalizing w g with
  | nil => exact ⟨g, hc⟩
  | cons e rest ih =>
    obtain ⟨g', hc'⟩ := step_holds hr hc e (hfits [e] ⟨rest, rfl⟩)
    exact ih ((w.step_refusal e).trans hr) hc' fun l hl =>
      hfits (e :: l) (List.cons_prefix_cons.2 ⟨rfl, hl⟩)

/-- An event keeps an archived node that it does not free, and the edges at it that it does not
sever. -/
theorem step_retains (hh : w.hierarchy.Holds g) (hx : g.archived.get? x = some node)
    (hopen : (w.step e).hierarchy.store.locked = false) (hfits : (w.step e).contents.Fits)
    (hkept : ¬ w.Frees x e) :
    ∃ g', (w.step e).hierarchy.Holds g' ∧ g.Retains g' x fun a d => w.Severs a d e := by
  rcases w.step_cases e with ⟨env, op, rfl⟩ | ⟨hcut, hs | ⟨a, d, hs⟩⟩
  · exact Hierarchy.serve_retains hh hx env hopen hfits hkept
  · exact ⟨g, hh.of_store hs, .refl hcut⟩
  · rw [contents, hs] at hfits
    rw [hs] at hopen
    obtain ⟨g', hh', hretains⟩ := Hierarchy.serve_retains hh hx .calm hopen hfits not_false
    refine ⟨g', hh'.of_store hs, hretains.archived, fun y z hyz => ?_⟩
    rw [hretains.edge y z hyz, and_iff_left (hcut y z)]
    exact and_iff_left (by simp [Operation.Severs, Operation.Removes])

/-- A run keeps an archived node that it does not free, and the edges at it that it does not
sever. -/
theorem run_retains (hh : w.hierarchy.Holds g) (hx : g.archived.get? x = some node)
    (events : List (Event k)) (hopen : (w.run events).hierarchy.store.locked = false)
    (hfits : ∀ l, l <+: events → (w.run l).contents.Fits) (hkept : ¬ w.Meets (Frees x) events) :
    ∃ g', (w.run events).hierarchy.Holds g' ∧
      g.Retains g' x fun a d => w.Meets (Severs a d) events := by
  induction events generalizing w g with
  | nil => exact ⟨g, hh, .refl fun _ _ => not_false⟩
  | cons e rest ih =>
    rw [Meets, not_or] at hkept
    -- The store is open at the end, so the first event did not lock it.
    have hr : (w.step e).hierarchy.store.refusal = none := (w.step_refusal e).trans hh.refusal
    obtain ⟨g', hh', hretains⟩ :=
      step_retains hh hx (open_of_run hr hopen) (hfits [e] ⟨rest, rfl⟩) hkept.1
    obtain ⟨g'', hh'', hretains'⟩ := ih hh' (hretains.archived.trans hx) hopen
      (fun l hl => hfits (e :: l) (List.cons_prefix_cons.2 ⟨rfl, hl⟩)) hkept.2
    exact ⟨g'', hh'', hretains.trans hretains'⟩

/-- So does every beginning of a run. -/
theorem prefix_retains (hh : w.hierarchy.Holds g) (hx : g.archived.get? x = some node)
    {events : List (Event k)} (hopen : (w.run events).hierarchy.store.locked = false)
    (hfits : ∀ l, l <+: events → (w.run l).contents.Fits) (hkept : ¬ w.Meets (Frees x) events)
    {l : List (Event k)} (hl : l <+: events) :
    ∃ g', (w.run l).hierarchy.Holds g' ∧ g.Retains g' x fun a d => w.Meets (Severs a d) l := by
  obtain ⟨rest, rfl⟩ := hl
  have hr : (w.run l).hierarchy.store.refusal = none := (w.run_refusal l).trans hh.refusal
  rw [run_append] at hopen
  exact run_retains hh hx l (open_of_run hr hopen)
    (fun l' hl' => hfits l' (hl'.trans (List.prefix_append l rest)))
    fun hmeets => hkept (hmeets.append rest)

/-- A node is archived, stays in the archive during some events, and is recovered. -/
structure Absent (w : World k) (x : NodeId k) (env : Surroundings k) (between : List (Event k))
    (env' : Surroundings k) : Prop where
  archived : (w.hierarchy.serve env (.archive x)).1 = .ok .done
  kept : ¬ (w.step (.serve env (.archive x))).Meets (Frees x) between
  recovered : (((w.step (.serve env (.archive x))).run between).hierarchy.serve env'
    (.recover x)).1 = .ok .done

section Absent

variable {between : List (Event k)} {env env' : Surroundings k}
  (habsent : w.Absent x env between env') (hr : w.hierarchy.store.refusal = none)

include habsent hr

/-- What the recovery leaves. -/
theorem Absent.contents_recovered : let w₂ := (w.step (.serve env (.archive x))).run between
    w₂.hierarchy.store.locked = false ∧ ∃ node, w₂.contents.archived.get? x = some node ∧
      (w₂.step (.serve env' (.recover x))).contents = w₂.contents.withRecovered x node := by
  intro w₂
  have hr₂ : w₂.hierarchy.store.refusal = none :=
    (run_refusal ..).trans ((step_refusal ..).trans hr)
  obtain ⟨hopen, node, hnode, hs⟩ := Hierarchy.contents_of_recovered hr₂ habsent.recovered
  exact ⟨hopen, node, hnode, congrArg MemoryStore.contents hs⟩

/-- The graphs from the archiving on, until the recovery. -/
theorem Absent.exists_graphs (hc : w.contents.Holds g)
    (hfits : ∀ l, l <+: between →
      ((w.step (.serve env (.archive x))).run l).contents.Fits) :
    let w₁ := w.step (.serve env (.archive x))
    ∃ (node : Node k) (g' : Dag k), w.contents.active.get? x = some node ∧
      w₁.contents = w.contents.withArchived x node ∧
      g'.archived.get? x = some node ∧ g'.edge = g.edge ∧
      ∀ l, l <+: between → ∃ g'', (w₁.run l).hierarchy.Holds g'' ∧
        g'.Retains g'' x fun a d => w₁.Meets (Severs a d) l := by
  intro w₁
  obtain ⟨hopen, node, hnode, hs⟩ := Hierarchy.contents_of_archived hr habsent.archived
  have hcontents : w₁.contents = w.contents.withArchived x node :=
    congrArg MemoryStore.contents hs
  obtain ⟨g', hg', hedge⟩ := Hierarchy.holds_of_archived ⟨hr, hopen, hc⟩ habsent.archived
    (hfits [] List.nil_prefix)
  have harchived : g'.archived.get? x = some node := by
    rw [← hg'.contents.archived, hs]
    exact Table.get?_insert_self ..
  exact ⟨node, g', hnode, hcontents, harchived, hedge, fun l hl =>
    prefix_retains hg' harchived (habsent.contents_recovered hr).1 hfits habsent.kept hl⟩

end Absent

/-- Whatever happened before and happens while a node is in the archive, it comes back as the record
that was archived. The edges at it are those it had when it was archived, without those that were
removed meanwhile, by themselves or with a node at one of their ends. All the while nothing else has
its id or its code. A node that is recovered at once leaves no trace. -/
theorem run_recovered (h : Hierarchy k) (hstart : h.store = {}) (before between : List (Event k))
    (x : NodeId k) (env env' : Surroundings k)
    (hfits : ∀ n, (run ⟨h, []⟩
      ((before ++ .serve env (.archive x) :: between).take n)).contents.Fits)
    (habsent : (run ⟨h, []⟩ before).Absent x env between env') :
    let w₀ := run ⟨h, []⟩ before
    let w₁ := w₀.step (.serve env (.archive x))
    let w₃ := (w₁.run between).step (.serve env' (.recover x))
    ∃ node, w₀.contents.active.get? x = some node ∧ w₃.contents.active.get? x = some node ∧
      (∀ a d, a = x ∨ d = x → (Closure.Edge w₃.contents.rows a d ↔
        Closure.Edge w₀.contents.rows a d ∧ ¬ w₁.Meets (Severs a d) between)) ∧
      (∀ l, l <+: between → let s := (w₁.run l).contents
        s.archived.get? x = some node ∧ s.active.get? x = none ∧
          ∀ y, s.records.HasCode y node.code → y = x) ∧
      (between = [] → w₃.contents = w₀.contents) := by
  intro w₀ w₁ w₃
  have hprefix : ∀ l, l <+: before ++ .serve env (.archive x) :: between →
      (run ⟨h, []⟩ l).contents.Fits := fun l hl => List.prefix_iff_eq_take.1 hl ▸ hfits l.length
  have hfits₁ : ∀ l, l <+: between → (w₁.run l).contents.Fits := fun l hl => by
    have hl := hprefix (before ++ .serve env (.archive x) :: l)
      ((List.prefix_append_right_inj _).2 (List.cons_prefix_cons.2 ⟨rfl, hl⟩))
    rwa [run_append] at hl
  have hr : w₀.hierarchy.store.refusal = none := by rw [run_refusal, hstart]
  obtain ⟨g₀, hg₀⟩ : ∃ g₀, w₀.contents.Holds g₀ := by
    have hempty : (⟨h, []⟩ : World k).contents.Holds {} := by
      rw [contents, hstart]
      exact .empty
    exact run_holds (by rw [hstart]) hempty before fun l hl =>
      hprefix l (hl.trans (List.prefix_append _ _))
  obtain ⟨node, g₁, hnode, hcontents₁, hx, hedge, hgraphs⟩ := habsent.exists_graphs hr hg₀ hfits₁
  obtain ⟨-, node', hnode', hcontents₃⟩ := habsent.contents_recovered hr
  obtain ⟨g₂, hg₂, hretains⟩ := hgraphs between (List.prefix_refl _)
  obtain rfl : node' = node := by
    have harchived := (hg₂.contents.alone (hretains.archived.trans hx)).1
    exact Option.some.inj (hnode'.symm.trans harchived)
  refine ⟨node', hnode, ?_, fun a d hxad => ?_, fun l hl => ?_, ?_⟩
  · exact hcontents₃ ▸ Table.get?_insert_self ..
  · have hrows : w₃.contents.rows = (w₁.run between).contents.rows := by rw [hcontents₃]; rfl
    rw [hrows, contents, hg₂.contents.edge_iff, hretains.edge a d hxad, hedge, ← hg₀.edge_iff]
  · obtain ⟨g, hg, hl⟩ := hgraphs l hl
    exact hg.contents.alone (hl.archived.trans hx)
  · -- Nothing came between the two moves of the record, which cancel.
    rintro rfl
    have hfree : w₀.contents.archived.get? x = none :=
      hg₀.records_wellFormed.not_archived hnode
    have hrun : (w₁.run []).contents = w₁.contents := rfl
    rw [hcontents₃, hrun, hcontents₁]
    exact Contents.withRecovered_withArchived hnode hfree

/-- Three nodes in a row. -/
def row : List (Event ⟨"tag"⟩) :=
  (Hierarchy.chain.take 5).map fun step => .serve step.1 step.2

/-- While the node in the middle is archived its code is asked for by another node, the node below
it is deleted, and the one above it is looked up. -/
def interlude : List (Event ⟨"tag"⟩) :=
  [.serve .calm (.add { id := some ⟨4⟩, code := "b", name := "D" }), .serve .calm (.delete ⟨3⟩),
    .find (.byId ⟨1⟩)]

/-- The node comes back with the edge from above alone. -/
theorem run_recovered_interlude :
    let w := ((run ⟨{ cache := .memory {} }, []⟩ row).step (.serve .calm (.archive ⟨2⟩))).run
      interlude
    let s := (w.step (.serve .calm (.recover ⟨2⟩))).contents
    Closure.Edge s.rows ⟨1⟩ ⟨2⟩ ∧ ¬ Closure.Edge s.rows ⟨2⟩ ⟨3⟩ := by
  intro w s
  have hfits : ∀ n, (run ⟨{ cache := .memory {} }, []⟩
      ((row ++ .serve .calm (.archive ⟨2⟩) :: interlude).take n)).contents.Fits := by
    intro n
    unfold Contents.Fits
    rcases Nat.lt_or_ge n 9 with hlt | hge
    · interval_cases n <;> decide +kernel
    · rw [List.take_of_length_le hge]
      decide +kernel
  have habsent : (run ⟨{ cache := .memory {} }, []⟩ row).Absent ⟨2⟩ .calm interlude .calm :=
    ⟨rfl, by simp [interlude, Meets, Frees, Operation.Frees], rfl⟩
  obtain ⟨node, -, -, hedges, -⟩ := run_recovered { cache := .memory {} } rfl row interlude ⟨2⟩
    .calm .calm hfits habsent
  constructor
  · refine (hedges ⟨1⟩ ⟨2⟩ (.inr rfl)).2 ⟨?_, ?_⟩
    · unfold Closure.Edge
      decide +kernel
    · simp [interlude, Meets, Severs, Operation.Severs, Operation.Removes]
  · rw [hedges ⟨2⟩ ⟨3⟩ (.inl rfl)]
    exact fun hedge => hedge.2 (.inr (.inl (.inr (.inr ⟨rfl, rfl⟩))))

end World

end Lineage
