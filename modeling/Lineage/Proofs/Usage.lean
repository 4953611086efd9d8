import Lineage.Proofs.Registered
import Lineage.Proofs.Retention

/-!
# Nodes in use

A node with a consumer stays where it is: it is neither archived nor removed, by whatever operation
or purge, until its consumers have let go of it.

* `Registry.mem_consumersOf_attach`, `mem_consumersOf_release`: the consumers of a node.
* `Contents.Spares`: a node stays active if it was, and stays known. All operations spare a node in
  use (`Contents.Spares.leads`).
* `Operation.Aims`: whether an operation would archive or remove a node, and what it answers then.
* `Watch.Outstanding`: a consumer took up a node, and its code was not released since.
* `Watch.run_guarded`: the consumers of a node are those outstanding, and guard it.
-/

namespace Lineage

variable {k : Kind}

/-! ## Consumers -/

namespace Registry

variable {r : Registry k} {id x : NodeId k} {c d : Consumer} {code : String}

theorem setOf_attach : (r.attach id c).setOf x =
    if x = id then (r.setOf id).insert c () else r.setOf x := by
  rw [setOf, attach, Table.get?_insert]
  split <;> rfl

theorem setOf_release : (r.release id code).2.setOf x =
    if x = id then (r.setOf id).filter fun c _ => !(c.code == code) else r.setOf x := by
  simp only [release]
  split
  case isTrue hempty =>
    rw [setOf, Table.get?_erase]
    split
    case isTrue => exact Table.ext (List.isEmpty_iff.1 hempty).symm
    case isFalse => rfl
  case isFalse =>
    rw [setOf, Table.get?_insert]
    split <;> rfl

theorem mem_consumersOf_attach :
    d ∈ (r.attach id c).consumersOf x ↔ x = id ∧ d = c ∨ d ∈ r.consumersOf x := by
  rw [consumersOf, setOf_attach]
  split
  case isTrue hx =>
    subst hx
    rw [consumersOf, Table.mem_keys, Table.mem_keys, Table.get?_insert]
    by_cases hd : d = c <;> simp [hd]
  case isFalse hx => simp [hx, consumersOf]

theorem mem_consumersOf_release :
    d ∈ (r.release id code).2.consumersOf x ↔ d ∈ r.consumersOf x ∧ ¬ (x = id ∧ d.code = code) := by
  rw [consumersOf, setOf_release]
  split
  case isTrue hx =>
    subst hx
    rw [consumersOf, Table.mem_keys, Table.mem_keys]
    simp [Table.get?_filter, Option.filter_eq_some_iff]
  case isFalse hx => simp [hx, consumersOf]

/-- The consumers of a node are listed by code, then display name. -/
theorem ascending_consumersOf (r : Registry k) (id : NodeId k) :
    (r.consumersOf id).Pairwise fun c d => compare c d = .lt :=
  List.pairwise_map.2 (r.setOf id).ascending

end Registry

/-! ## Nodes that are spared -/

namespace Contents

/-- A node that was active is so still, and one that was known is. -/
structure Spares (id : NodeId k) (s t : Contents k) : Prop where
  active : s.active.contains id = true → t.active.contains id = true
  known : s.hasId id = true → t.hasId id = true

namespace Spares

variable {s t : Contents k} {id x : NodeId k} {node : Node k}

theorem of_get? (hactive : t.active.get? id = s.active.get? id)
    (harchived : t.archived.get? id = s.archived.get? id) : s.Spares id t where
  active h := by rwa [Table.contains_eq, hactive, ← Table.contains_eq]
  known h := by
    rwa [hasId, Table.contains_eq, Table.contains_eq, hactive, harchived, ← Table.contains_eq,
      ← Table.contains_eq]

theorem of_active (hactive : t.active.get? id = some node) : s.Spares id t where
  active _ := Table.contains_iff.2 ⟨node, hactive⟩
  known _ := by rw [hasId, Table.contains_iff.2 ⟨node, hactive⟩, Bool.true_or]

theorem frame (id : NodeId k) : Frame fun s t : Contents k => s.Spares id t where
  of_records hactive harchived := .of_get? (by rw [hactive]) (by rw [harchived])
  trans hst htu := ⟨fun h => htu.active (hst.active h), fun h => htu.known (hst.known h)⟩

/-! ### Writes -/

theorem insert : s.Spares id { s with active := s.active.insert node.id node } := by
  by_cases hid : id = node.id
  · subst hid
    exact .of_active (Table.get?_insert_self ..)
  · exact .of_get? (Table.get?_insert_of_ne hid ..) rfl

theorem insertNode : s.Spares id (s.perform (.insertNode node)).2 := by
  have hR := frame id
  simp only [perform, Contents.insertNode]
  split
  · exact hR.refl s
  · split
    · exact hR.refl s
    · exact insert

theorem updateNode : s.Spares id (s.perform (.updateNode node)).2 := by
  simp only [perform, Contents.updateNode]
  split
  · exact insert
  · exact (frame id).refl s

theorem restoreNode : s.Spares id (s.perform (.restoreNode x)).2 := by
  simp only [perform, Contents.restoreNode]
  cases s.archived.get? x with
  | none => exact (frame id).refl s
  | some node =>
    by_cases hid : id = x
    · subst hid
      exact .of_active (Table.get?_insert_self ..)
    · exact .of_get? (Table.get?_insert_of_ne hid ..) (Table.get?_erase_of_ne hid ..)

theorem archiveNode (hid : id ≠ x) : s.Spares id (s.perform (.archiveNode x)).2 := by
  simp only [perform, Contents.archiveNode]
  cases s.active.get? x with
  | none => exact (frame id).refl s
  | some node =>
    exact .of_get? (Table.get?_erase_of_ne hid ..) (Table.get?_insert_of_ne hid ..)

theorem deleteNode (hid : id ≠ x) : s.Spares id (s.perform (.deleteNode x)).2 :=
  .of_get? (Table.get?_erase_of_ne hid ..) rfl

theorem deleteArchivedNode (hid : id ≠ x) : s.Spares id (s.perform (.deleteArchivedNode x)).2 :=
  .of_get? rfl (Table.get?_erase_of_ne hid ..)

/-- Every operation spares a node in use. -/
theorem leads {env : Surroundings k} (hused : env.consumersOf id ≠ .ok []) (op : Operation k) :
    op.Leads (fun s t => s.Spares id t) env := by
  have hR := frame id
  have hne : ∀ {x}, env.consumersOf x = .ok [] → id ≠ x := fun hx he => hused (he ▸ hx)
  have hdelete : ∀ x, env.consumersOf x = .ok [] →
      (Work.delete x).Leads fun s t => s.Spares id t := fun x hx =>
    Work.delete_leads hR (fun _ => deleteNode (hne hx)) fun _ => deleteArchivedNode (hne hx)
  cases op with
  | add new => exact fun _ _ => Work.add_leads hR fun _ => insertNode
  | update node => exact fun _ => Work.update_leads hR fun _ => updateNode
  | link a d => trivial
  | unlink a d => trivial
  | archive x => exact fun hx => Work.archive_leads hR fun _ => archiveNode (hne hx)
  | recover x => exact Work.recover_leads hR fun _ => restoreNode
  | purge x => exact fun hx => Work.purge_leads hR fun _ => deleteArchivedNode (hne hx)
  | delete x => exact hdelete x
  | deleteByCode code => exact hdelete

end Spares

end Contents

/-! ## Operations that aim at a node -/

/-- Whether an operation would archive or remove a node, which it names by its id or, while the node
is active, by its code. -/
def Operation.Aims (s : Contents k) (id : NodeId k) : Operation k → Prop
  | .archive x => x = id
  | .purge x => x = id
  | .delete x => x = id
  | .deleteByCode code => ∃ node, s.active.get? id = some node ∧ node.code = code
  | _ => False

/-- What an operation answers that finds its node in use. A code is looked up in the store before
that, which fails on a locked one. -/
def Operation.inUse (locked : Bool) (id : NodeId k) (codes : List String) :
    Operation k → Except (Failure k) (Reply k)
  | .purge _ => .ok (.purge (.inUse codes))
  | .deleteByCode _ =>
    .error (.refused (if locked then .store MemoryStore.lockedError else .inUse id codes))
  | _ => .error (.refused (.inUse id codes))

/-- Whether an answer says that a node is in use. -/
def ReportsUse : Except (Failure k) (Reply k) → Prop
  | .error (.refused (.inUse _ _)) => True
  | .ok (.purge (.inUse _)) => True
  | _ => False

/-- A removal is refused if the node is not active, and for no other reason. -/
theorem Work.delete_cases {s : MemoryStore k} (hs : s.refusal = none) (id : NodeId k)
    (t : Contents k) : delete id s t = .error (.notFound (.node id)) ∨
      ∃ touched t', delete id s t = .ok (touched, t') := by
  unfold delete
  simp only [bind_apply _ _ s t, ask_apply hs, Contents.perform, settled_ok, ok_bind]
  cases t.active.contains id with
  | false => exact .inl rfl
  | true =>
    unfold detach withAncestors
    simp only [if_true, bind_apply, ask_apply hs, Contents.perform, settled_ok, ok_bind,
      prune_eq hs, pure_apply]
    exact .inr ⟨_, _, rfl⟩

namespace Hierarchy

variable {h : Hierarchy k} (hr : h.store.refusal = none)

include hr

theorem look_idOfCode (hc : h.store.contents.Registered) {id : NodeId k} {node : Node k}
    (hnode : h.store.contents.active.get? id = some node) :
    h.look (Work.idOfCode node.code) =
      if h.store.locked then .error (.store MemoryStore.lockedError) else .ok id := by
  have hid : node.id = id := hc.wellFormed.own id node (Dag.node?_of_active hnode)
  cases hl : h.store.locked with
  | true => exact look_of_locked hr hl _
  | false =>
    refine look_of_open hr hl (t := h.store.contents) ?_
    simp only [Work.idOfCode, Work.bind_apply, Work.ask_apply hr, Contents.perform, Work.settled_ok,
      Work.ok_bind, hc.find?_code hnode]
    rw [hid]
    rfl

variable {env : Surroundings k} {id : NodeId k} {op : Operation k}

omit hr in
theorem consumers_of_ok {cs : List Consumer} (hc : env.consumersOf id = .ok cs) :
    (h.within env).consumers id = .ok (cs.map (·.code)) := by
  have hguard : (h.within env).guard.consumersOf (h.within env).registry id = .ok cs := hc
  rw [consumers, hguard]

omit hr in
theorem requireUnused_of_used {c : Consumer} {cs : List Consumer}
    (hc : env.consumersOf id = .ok (c :: cs)) :
    (h.within env).requireUnused id = .error (.inUse id ((c :: cs).map (·.code))) := by
  rw [requireUnused, consumers_of_ok hc]
  rfl

/-- An operation that aims at a node in use says so and changes nothing. -/
theorem serve_of_used (hc : h.store.contents.Registered) {c : Consumer} {cs : List Consumer}
    (hused : env.consumersOf id = .ok (c :: cs)) (haims : op.Aims h.store.contents id) :
    h.serve env op = (op.inUse h.store.locked id ((c :: cs).map (·.code)), h.within env) := by
  have hconsumers := consumers_of_ok (h := h) hused
  have hrequire := requireUnused_of_used (h := h) hused
  cases op with
  | archive x =>
    obtain rfl := haims
    simp only [serve, archive, archiveBy, hrequire]
    rfl
  | purge x =>
    obtain rfl := haims
    simp only [serve, purge, hconsumers, List.map_cons]
    rfl
  | delete x =>
    obtain rfl := haims
    simp only [serve, delete, hrequire]
    rfl
  | deleteByCode code =>
    obtain ⟨node, hnode, rfl⟩ := haims
    have hlook := look_idOfCode (h := h.within env) hr hc hnode
    simp only [serve, deleteByCode, hc.not_blank hnode, Bool.false_eq_true, if_false, hlook]
    cases hl : h.store.locked with
    | true =>
      have hl : (h.within env).store.locked = true := hl
      rw [if_pos hl]
      rfl
    | false =>
      have hl : ¬ (h.within env).store.locked = true := by rw [Bool.not_eq_true]; exact hl
      rw [if_neg hl]
      simp only [delete, hrequire]
      rfl
  | add | update | link | unlink | recover => exact haims.elim

/-- A removal does not say that a node is in use that is not. -/
theorem delete_of_unused (hu : h.requireUnused id = .ok ()) :
    ¬ ReportsUse (replied (fun _ => .done) (h.delete id)).1 := by
  rw [delete, hu]
  simp only [change]
  cases hl : h.store.locked with
  | true =>
    rw [MemoryStore.run_locked hr hl]
    exact not_false
  | false =>
    rw [MemoryStore.run_unlocked hr hl]
    rcases Work.delete_cases hr id h.store.contents with hw | ⟨touched, t, hw⟩
    · simp only [Work.bind_apply, hw]
      exact not_false
    · simp only [Work.bind_apply, hw, Work.ok_bind, Work.pure_apply, MemoryStore.commit_eq hr]
      exact not_false

theorem purge_of_consumers (hu : h.consumers id = .ok []) :
    ¬ ReportsUse (replied .purge (h.purge id)).1 := by
  simp only [purge, hu, change]
  cases hl : h.store.locked with
  | true =>
    rw [MemoryStore.run_locked hr hl]
    exact not_false
  | false =>
    rw [MemoryStore.run_unlocked hr hl]
    obtain ⟨touched, t, hw, -⟩ := Work.purge_eq_ok hr id h.store.contents
    cases touched with
    | none =>
      simp only [Work.bind_apply, hw, Work.ok_bind, Work.pure_apply]
      exact not_false
    | some touched =>
      simp only [Work.bind_apply, hw, Work.ok_bind, Work.pure_apply, MemoryStore.commit_eq hr]
      exact not_false

theorem archive_of_unused (hu : h.requireUnused id = .ok ()) (env : Surroundings k) :
    ¬ ReportsUse (((h.archive env.scheduler env.queue env.now env.job id).1).map
      fun _ => (.done : Reply k)) := by
  simp only [archive, archiveBy, hu]
  cases hl : h.store.locked with
  | true =>
    rw [MemoryStore.run_locked hr hl]
    exact not_false
  | false =>
    rw [MemoryStore.run_unlocked hr hl, Work.archive_apply hr]
    cases h.store.contents.active.get? id with
    | none => exact not_false
    | some node =>
      cases h.settings.gracePeriod.step? with
      | none => exact not_false
      | some grace =>
        cases hdue : env.now.add? grace with
        | none =>
          simp only [hdue]
          exact not_false
        | some due =>
          simp only [hdue, MemoryStore.commit_eq hr]
          rcases env.scheduler.request k.name id.toInt due env.job env.now env.queue with
            ⟨_ | _, _⟩
          · exact not_false
          · exact not_false

/-- An operation that aims at a node out of use does not say that it is in use. -/
theorem serve_of_unused (hc : h.store.contents.Registered) (hunused : env.consumersOf id = .ok [])
    (haims : op.Aims h.store.contents id) : ¬ ReportsUse (h.serve env op).1 := by
  have hin : (h.within env).store.refusal = none := hr
  have hconsumers := consumers_of_ok (h := h) hunused
  have hrequire : (h.within env).requireUnused id = .ok () := by
    rw [requireUnused, hconsumers]
    rfl
  cases op with
  | archive x =>
    obtain rfl := haims
    exact archive_of_unused hin hrequire env
  | purge x =>
    obtain rfl := haims
    exact purge_of_consumers hin hconsumers
  | delete x =>
    obtain rfl := haims
    exact delete_of_unused hin hrequire
  | deleteByCode code =>
    obtain ⟨node, hnode, rfl⟩ := haims
    have hlook := look_idOfCode (h := h.within env) hr hc hnode
    simp only [serve, deleteByCode, hc.not_blank hnode, Bool.false_eq_true, if_false, hlook]
    split
    case h_1 he =>
      split at he
      · cases he
        exact not_false
      · cases he
    case h_2 he =>
      split at he
      · cases he
      · cases he
        exact delete_of_unused hin hrequire
  | add | update | link | unlink | recover => exact haims.elim

end Hierarchy

/-! ## Turns -/

namespace Watch

variable {w : Watch k} {id : NodeId k} {c : Consumer}

/-- Surroundings in which the registry guards the nodes, with the queue and the clock. -/
def around (w : Watch k) (env : Surroundings k) : Surroundings k :=
  w.guarded { env with queue := w.timeline.queue, now := w.timeline.now }

/-- What an operation answers. -/
def answer (w : Watch k) (env : Surroundings k) (op : Operation k) :
    Except (Failure k) (Reply k) := (w.timeline.hierarchy.serve (w.around env) op).1

/-- What the store holds. -/
def contents (w : Watch k) : Contents k := w.timeline.hierarchy.store.contents

theorem timeline_serve (w : Watch k) (env : Surroundings k) (op : Operation k) :
    (w.step (.serve env op)).timeline = w.timeline.step (.serve (w.guarded env) op) := by
  cases op <;> rfl

theorem contents_serve (w : Watch k) (env : Surroundings k) (op : Operation k) :
    (w.step (.serve env op)).contents =
      (w.timeline.hierarchy.serve (w.around env) op).2.store.contents := by
  cases op <;> rfl

/-- Turns keep the promises of the jobs. -/
theorem orderly_step (hw : w.timeline.Orderly) (turn : Turn k) :
    (w.step turn).timeline.Orderly := by
  have hnext : ∀ h, w.timeline.hierarchy.Alike h →
      Timeline.Orderly { w.timeline with hierarchy := h } := fun h halike => by
    have hnext : Timeline.Orderly { w.timeline with hierarchy := h } ∧ _ := hw.next halike hw.job
    exact hnext.1
  cases turn with
  | serve env op => exact timeline_serve w env op ▸ (hw.step (.serve (w.guarded env) op)).1
  | find key =>
    cases key with
    | byId id => exact hnext _ (Hierarchy.readThrough_alike ..)
    | byCode code => exact hnext _ (Hierarchy.readThrough_alike ..)
  | attach id consumer => exact hw
  | release id code => exact hw
  | wait t => exact (hw.step (.wait t)).1
  | runNext => exact (hw.step (.runNext (w.guarded .calm))).1

/-- A relation to which all operations keep holds across every turn. -/
theorem contents_step {R : Contents k → Contents k → Prop} (hR : Contents.Frame R)
    (hw : w.timeline.Orderly) (hops : ∀ env op, Operation.Leads R (w.guarded env) op)
    (turn : Turn k) : R w.contents (w.step turn).contents := by
  cases turn with
  | serve env op =>
    rw [contents_serve]
    exact Hierarchy.serve_contents hR hw.refusal (w.around env) (hops _ op)
  | find key =>
    cases key with
    | byId id => exact (Hierarchy.readThrough_leads hR hw.refusal ..).contents
    | byCode code => exact (Hierarchy.readThrough_leads hR hw.refusal ..).contents
  | attach id consumer => exact hR.refl _
  | release id code => exact hR.refl _
  | wait t => exact hR.refl _
  | runNext =>
    rcases Executor.runNext_cases hw.keyed w.timeline.now
        (w.timeline.hierarchy.within (w.guarded .calm)) hw.kind with
      ⟨-, heq, -⟩ | ⟨job, -, -, -, hh, -⟩
    · rw [contents, contents, step, Timeline.step, heq]
      exact hR.refl _
    · have hpurge : ∀ id, (w.timeline.hierarchy.within (w.guarded .calm)).consumers id = .ok [] →
          (Work.purge id).Leads R := fun id hc => hops .calm (.purge id)
        (Hierarchy.unused_of_consumers hc)
      rw [contents, contents, step, Timeline.step, hh]
      exact (Hierarchy.runPurge_leads hR
        (h := w.timeline.hierarchy.within (w.guarded .calm)) hw.refusal hpurge _).contents

/-- The jobs keep their promises, and the records are in order. -/
structure Sound (w : Watch k) : Prop where
  orderly : w.timeline.Orderly
  registered : w.contents.Registered

namespace Sound

variable (hw : w.Sound)

include hw

theorem step (turn : Turn k) : (w.step turn).Sound where
  orderly := orderly_step hw.orderly turn
  registered := contents_step Contents.Registered.frame hw.orderly
    (fun env op => Contents.Registered.leads (w.guarded env) op) turn hw.registered

theorem run (turns : List (Turn k)) : (w.run turns).Sound := by
  induction turns generalizing w with
  | nil => exact hw
  | cons turn rest ih => exact ih (hw.step turn)

/-- No turn takes a node in use out of the active table or out of both. -/
theorem spares (hused : w.registry.consumersOf id ≠ []) (turn : Turn k) :
    w.contents.Spares id (w.step turn).contents := by
  have hguarded : ∀ env, (w.guarded env).consumersOf id ≠ .ok [] :=
    fun env hc => hused (Except.ok.inj hc)
  exact contents_step (Contents.Spares.frame id) hw.orderly
    (fun env op => Contents.Spares.leads (hguarded env) op) turn

/-- An operation that aims at a node in use says who uses it, and changes nothing. -/
theorem refuses (hused : w.registry.consumersOf id ≠ []) (env : Surroundings k) {op : Operation k}
    (haims : op.Aims w.contents id) :
    w.answer env op = op.inUse w.timeline.hierarchy.store.locked id
        ((w.registry.consumersOf id).map (·.code)) ∧
      w.step (.serve env op) = { w with timeline := { w.timeline with
        hierarchy := w.timeline.hierarchy.within (w.guarded env) } } := by
  obtain ⟨c, cs, hcs⟩ := List.exists_cons_of_ne_nil hused
  have hconsumers : ∀ env, (w.guarded env).consumersOf id = .ok (c :: cs) :=
    fun env => congrArg Except.ok hcs
  have hserve := fun env => Hierarchy.serve_of_used (h := w.timeline.hierarchy) hw.orderly.refusal
    hw.registered (hconsumers env) haims
  refine ⟨?_, ?_⟩
  · rw [answer, around, hserve, hcs]
  by_cases harchive : ∃ x, op = .archive x
  · obtain ⟨x, rfl⟩ := harchive
    obtain rfl := haims
    have hrequire := Hierarchy.requireUnused_of_used (h := w.timeline.hierarchy) (hconsumers env)
    simp only [Watch.step, Timeline.step, archives?, Hierarchy.archive, Hierarchy.archiveBy,
      hrequire]
    rfl
  · have hop : ∀ x, op ≠ .archive x := fun x he => harchive ⟨x, he⟩
    have hstep : w.step (.serve env op) =
        { w with timeline := w.timeline.step (.serve (w.guarded env) op) } := by
      cases op with
      | archive x => exact absurd rfl (hop x)
      | _ => rfl
    rw [hstep, Timeline.step_serve hop, hserve]

end Sound

/-! ## Runs -/

theorem start_sound {h : Hierarchy k} (hstart : h.store = {}) (now : Instant) :
    (start h now {}).Sound where
  orderly := Timeline.start_orderly (by rw [hstart]) now
  registered := by
    change h.store.contents.Registered
    rw [hstart]
    exact .empty

/-- A consumer was attached to a node, and its code was not released since. -/
def Outstanding (turns : List (Turn k)) (id : NodeId k) (c : Consumer) : Prop :=
  ∃ before after, turns = before ++ .attach id c :: after ∧ .release id c.code ∉ after

theorem outstanding_cons {turn : Turn k} {rest : List (Turn k)} :
    Outstanding (turn :: rest) id c ↔
      turn = .attach id c ∧ .release id c.code ∉ rest ∨ Outstanding rest id c := by
  constructor
  · rintro ⟨_ | ⟨turn, before⟩, after, h, hafter⟩
    · obtain ⟨rfl, rfl⟩ := List.cons.inj h
      exact .inl ⟨rfl, hafter⟩
    · obtain ⟨rfl, rfl⟩ := List.cons.inj h
      exact .inr ⟨before, after, rfl, hafter⟩
  · rintro (⟨rfl, hafter⟩ | ⟨before, after, rfl, hafter⟩)
    · exact ⟨[], rest, rfl, hafter⟩
    · exact ⟨turn :: before, after, rfl, hafter⟩

theorem mem_consumersOf_step (turn : Turn k) :
    c ∈ (w.step turn).registry.consumersOf id ↔
      turn = .attach id c ∨ c ∈ w.registry.consumersOf id ∧ turn ≠ .release id c.code := by
  cases turn with
  | serve env op => cases op <;> simp [step]
  | find key => simp [step]
  | attach x d =>
    rw [step, Registry.mem_consumersOf_attach]
    simp [eq_comm]
  | release x code =>
    rw [step, Registry.mem_consumersOf_release]
    simp [eq_comm]
  | wait t => simp [step]
  | runNext => simp [step]

theorem mem_consumersOf_run (turns : List (Turn k)) :
    c ∈ (w.run turns).registry.consumersOf id ↔
      Outstanding turns id c ∨
        c ∈ w.registry.consumersOf id ∧ .release id c.code ∉ turns := by
  induction turns generalizing w with
  | nil => simp [run, Outstanding]
  | cons turn rest ih =>
    have hrun : w.run (turn :: rest) = (w.step turn).run rest := rfl
    rw [hrun, ih, mem_consumersOf_step, outstanding_cons, List.mem_cons, ne_comm]
    tauto

/-- In every state to which operations, lookups, consumers, the clock and the executor lead from an
empty store and an empty registry, the consumers of a node are those outstanding, by code, then
display name. If there are any, no turn takes the node out of the active table or out of the store,
and every operation that would do so names their codes and changes nothing; the removal by code
needs a store that is not locked for that. If there are none, no such operation says that the node
is in use. -/
theorem run_guarded (h : Hierarchy k) (hstart : h.store = {}) (now : Instant)
    (turns : List (Turn k)) (id : NodeId k) :
    let w := (start h now {}).run turns
    let users := w.registry.consumersOf id
    users.Pairwise (fun c d => compare c d = .lt) ∧ (∀ c, c ∈ users ↔ Outstanding turns id c) ∧
      (users ≠ [] →
        (∀ turn, w.contents.Spares id (w.step turn).contents) ∧
        ∀ env op, op.Aims w.contents id →
          w.answer env op =
              op.inUse w.timeline.hierarchy.store.locked id (users.map (·.code)) ∧
            w.step (.serve env op) = { w with timeline := { w.timeline with
              hierarchy := w.timeline.hierarchy.within (w.guarded env) } }) ∧
      (users = [] → ∀ env op, op.Aims w.contents id → ¬ ReportsUse (w.answer env op)) := by
  intro w users
  have hw : w.Sound := (start_sound hstart now).run turns
  refine ⟨Registry.ascending_consumersOf .., fun c => ?_, fun hused => ⟨hw.spares hused, ?_⟩, ?_⟩
  · rw [mem_consumersOf_run]
    exact or_iff_left fun h => by cases h.1
  · exact fun env op haims => hw.refuses hused env haims
  · exact fun hunused env op haims => Hierarchy.serve_of_unused hw.orderly.refusal hw.registered
      (congrArg Except.ok hunused) haims

/-- A node is taken up by three consumers, one of which lets go of it again, and is to be
archived. -/
def taken : List (Turn ⟨"tag"⟩) :=
  [.serve .calm (.add { id := some ⟨1⟩, code := "a", name := "A" }), .attach ⟨1⟩ ⟨"r", "Z"⟩,
    .attach ⟨1⟩ ⟨"q", "Q"⟩, .attach ⟨1⟩ ⟨"r", "A"⟩, .release ⟨1⟩ "q", .serve .calm (.archive ⟨1⟩)]

/-- Two consumers of one code are left. -/
theorem run_guarded_taken :
    let w := (start { cache := .memory {} } ⟨0, false⟩ {}).run taken
    w.answer .calm (.deleteByCode "a") = .error (.refused (.inUse ⟨1⟩ ["r", "r"])) := by
  intro w
  obtain ⟨-, -, hused, -⟩ := run_guarded { cache := .memory {} } rfl ⟨0, false⟩ taken ⟨1⟩
  have husers : w.registry.consumersOf ⟨1⟩ = [⟨"r", "A"⟩, ⟨"r", "Z"⟩] := by decide +kernel
  have hcode : (w.contents.active.get? ⟨1⟩).map (·.code) = some "a" := by decide +kernel
  have hlocked : w.timeline.hierarchy.store.locked = false := by decide +kernel
  have hne : w.registry.consumersOf ⟨1⟩ ≠ [] := by
    rw [husers]
    exact List.cons_ne_nil _ _
  have hanswer := ((hused hne).2 .calm (.deleteByCode "a") (Option.map_eq_some_iff.1 hcode)).1
  rw [hanswer, husers, hlocked]
  rfl

/-- A grace period that leads past the last instant: the archiving is cut off, and the node stays
active and is taken up. -/
def cutOff : List (Turn ⟨"tag"⟩) :=
  [.serve .calm (.add { id := some ⟨1⟩, code := "a", name := "A" }),
    .serve .calm (.archive ⟨1⟩), .attach ⟨1⟩ ⟨"r", "R"⟩]

/-- On a locked store the removal by code does not get as far as the consumers. -/
theorem use_hidden_by_lock :
    let h : Hierarchy ⟨"tag"⟩ :=
      { settings := { gracePeriod := .ofSeconds 9000000000000 }, cache := .memory {} }
    let w := (start h ⟨0, false⟩ {}).run cutOff
    Outstanding cutOff ⟨1⟩ ⟨"r", "R"⟩ ∧ Operation.Aims w.contents ⟨1⟩ (.deleteByCode "a") ∧
      w.answer .calm (.deleteByCode "a") = .error (.refused (.store MemoryStore.lockedError)) ∧
      ¬ ReportsUse (w.answer .calm (.deleteByCode "a")) := by
  intro h w
  have hw : w.Sound := (start_sound rfl ⟨0, false⟩).run cutOff
  have hcode : (w.contents.active.get? ⟨1⟩).map (·.code) = some "a" := by decide +kernel
  have haims : Operation.Aims w.contents ⟨1⟩ (.deleteByCode "a") := Option.map_eq_some_iff.1 hcode
  have hlocked : w.timeline.hierarchy.store.locked = true := by decide +kernel
  have hne : w.registry.consumersOf ⟨1⟩ ≠ [] := by decide +kernel
  have hanswer : w.answer .calm (.deleteByCode "a") =
      .error (.refused (.store MemoryStore.lockedError)) := by
    rw [(hw.refuses hne .calm haims).1, hlocked]
    rfl
  refine ⟨⟨cutOff.take 2, [], rfl, List.not_mem_nil⟩, haims, hanswer, ?_⟩
  rw [hanswer]
  exact not_false

end Watch

end Lineage
