import Lineage.Proofs.Outlines

/-!
# Depths stay below the number of nodes

A stored depth is the length of a walk that passes no node twice, and so are the sums that the
closure algorithms form on the way to it. In a hierarchy of no more than 2³² nodes none of them
needs more than 32 bits, whatever the hierarchy went through before.

* `Change.within`: no repair in the work of any change forms a sum that comes to the number of
  nodes.
* `Hierarchy.serve_works`: what an operation leaves is what the work of some change leaves.
* `Hierarchy.run_depths`: the bounds on all depths and sums in every state that a run leads to.
-/

open Relation

namespace Lineage

variable {k : Kind} {α : Type}

/-! ## Repairs within a limit -/

/-- Where a call reads all rows, no sum in the search for their closure exceeds the limit. That is
the call with which a repair begins. -/
def Call.Within (limit : Nat) (c : Call k α) (t : Contents k) : Prop :=
  match c with
  | .allPaths => Closure.closureWithin limit t.rows = some (Closure.transitiveClosure t.rows)
  | _ => True

namespace Script

variable {limit : Nat} {t : Contents k} {E : NodeId k → NodeId k → Prop} {id a d : NodeId k}

theorem prune_within
    (h : Closure.closureWithin limit t.rows = some (Closure.transitiveClosure t.rows)) :
    (prune : Script k Unit).Each (Call.Within limit) t :=
  .step h rfl <| .ite (fun _ => trivial) fun _ =>
    .bind (.ask trivial) fun _ _ _ => .bind (.ask trivial) fun _ _ _ => .ask trivial

theorem add_within (node : Node k) : (add node).Each (Call.Within limit) t :=
  .step trivial rfl <| .guard fun _ => .step trivial rfl <| .guard fun _ =>
    .bind (.ask trivial) fun _ _ _ => .ask trivial

theorem update_within (node : Node k) : (update node).Each (Call.Within limit) t := by
  have hwrite : ∀ t : Contents k, (do
      unless ← ask (.updateNode node) do refuse (.notFound (.node node.id)) :
      Script k Unit).Each (Call.Within limit) t :=
    fun t => .step trivial rfl (.ite (fun _ => trivial) fun _ => trivial)
  refine .step trivial rfl ?_
  cases t.active.get? node.id with
  | none => trivial
  | some current =>
    refine .ite (fun _ => .step trivial rfl ?_) fun _ => hwrite t
    cases t.ownerOf node.code with
    | none => exact hwrite t
    | some owner => exact .guard fun _ => hwrite t

theorem requireNode_within (id : NodeId k) : (requireNode id).Each (Call.Within limit) t :=
  .step trivial rfl (.ite (fun _ => trivial) fun _ => trivial)

theorem link_within (a d : NodeId k) : (link a d).Each (Call.Within limit) t :=
  .bind (requireNode_within d) fun _ _ _ => .bind (requireNode_within a) fun _ _ _ =>
    .step trivial rfl <| .guard fun _ => .step trivial rfl <| .guard fun _ =>
      .step trivial rfl <| .step trivial rfl <|
        .bind (.ask trivial) fun _ _ _ => .ask trivial

section Repairs

variable (h : t.Outlines E)

include h

theorem unlink_within (leafOnly : Bool) (a d : NodeId k) :
    (unlink leafOnly a d).Each (Call.Within (t.nodeCount - 1)) t := by
  have hcut : (do
      unless ← hasEdge a d do refuse (.notFound (.path a d))
      let _ ← ask (.deletePaths [Path.direct a d])
      prune : Script k Unit).Each (Call.Within (t.nodeCount - 1)) t := by
    refine .step trivial rfl (.ite (fun hedge => ?_) fun _ => trivial)
    obtain ⟨row, hrow, hdirect⟩ := (Option.any_eq_true _ _).1 hedge
    obtain ⟨depth, hdepth, rfl⟩ := Option.map_eq_some_iff.1 hrow
    obtain rfl : depth = 1 := by simpa [Path.isDirect] using hdirect
    exact .step trivial rfl (prune_within ((h.trims_erase hdepth).closureWithin h))
  cases leafOnly with
  | false => exact hcut
  | true => exact .step trivial rfl (.guard fun _ => hcut)

theorem detach_within {t' : Contents k} (ht : (t'.deletePathsOf id).2 = t.without id) :
    (detach id).Each (Call.Within (t.nodeCount - 1)) t' := by
  have hclosure := (h.trims_without id).closureWithin h
  rw [← ht] at hclosure
  exact .step trivial rfl (.step trivial rfl (.bind (prune_within hclosure) fun _ _ _ => trivial))

theorem purge_within (hrecords : t.records.WellFormed) (id : NodeId k) :
    (purge id).Each (Call.Within (t.nodeCount - 1)) t := by
  refine .step trivial rfl (.ite (fun _ => trivial) fun hfound => .step trivial rfl ?_)
  obtain ⟨node, hnode⟩ := Option.ne_none_iff_exists'.1 fun hnone : t.archived.get? id = none =>
    hfound (Option.isNone_iff_eq_none.2 hnone)
  have hactive : t.active.erase id = t.active := Table.erase_eq_self (hrecords.not_active hnode)
  refine .bind (detach_within h ?_) fun _ _ _ => trivial
  rw [Contents.without, hactive]
  rfl

theorem delete_within (id : NodeId k) : (delete id).Each (Call.Within (t.nodeCount - 1)) t :=
  .step trivial rfl <| .ite (fun _ => .step trivial rfl (detach_within h rfl)) fun _ => trivial

end Repairs

end Script

/-- No sum that a repair forms in a change comes to the number of nodes before the change. -/
theorem Change.within {t : Contents k} (ht : t.records.WellFormed)
    {E : NodeId k → NodeId k → Prop} (h : t.Outlines E) (c : Change k) :
    c.script.Each (Call.Within (t.nodeCount - 1)) t := by
  cases c with
  | add node => exact Script.add_within node
  | update node => exact Script.update_within node
  | link a d => exact Script.link_within a d
  | unlink leafOnly a d => exact Script.unlink_within h leafOnly a d
  | archive id => exact .step trivial rfl (.ite (fun _ => trivial) fun _ => trivial)
  | recover id => exact .step trivial rfl (.ite (fun _ => trivial) fun _ => trivial)
  | purge id => exact Script.purge_within h ht id
  | delete id => exact Script.delete_within h id

/-! ## Operations -/

namespace Hierarchy

variable {h h' : Hierarchy k}

/-- The contents are as they were, or as the work of a change leaves them. -/
def Works (h h' : Hierarchy k) : Prop :=
  h'.store.contents = h.store.contents ∨
    ∃ (c : Change k) (r : c.Answer),
      c.work h.store h.store.contents = .ok (r, h'.store.contents)

theorem Works.committed {c : Change k} {r : c.Answer} {t : Contents k}
    (hwork : c.work h.store h.store.contents = .ok (r, t)) (touched : List (NodeId k)) :
    h.Works (h.committed t touched) := by
  refine .inr ⟨c, r, ?_⟩
  rw [committed_store]
  exact hwork

variable (hr : h.store.refusal = none)

include hr

/-- A transaction that does no more than the work of a change. -/
theorem change_works (c : Change k) {f : c.Answer → Work k (α × Option (List (NodeId k)))}
    (hf : ∀ r s t b t', f r s t = .ok (b, t') → t' = t)
    (failed : StoreError → HierarchyError k) : h.Works (h.change (c.work >>= f) failed).2 := by
  rcases change_cases hr (c.work >>= f) failed with ⟨e, hends⟩ | ⟨a, touched, t, hall, hends⟩ <;>
    rw [hends]
  · exact .inl rfl
  · obtain ⟨r, t', hwork, hrest⟩ := Work.bind_eq_ok hall
    obtain rfl := hf _ _ _ _ _ hrest
    cases touched with
    | none => exact .inl rfl
    | some ids => exact .committed hwork ids

theorem change_works_of_unit (c : Change k) (a : α) (touched : List (NodeId k))
    (failed : StoreError → HierarchyError k) :
    h.Works (h.change (c.work >>= fun _ => pure (a, some touched)) failed).2 :=
  change_works hr c (fun _ _ _ _ _ hp => (Prod.mk.inj (Except.ok.inj hp)).2.symm) failed

theorem delete_works (id : NodeId k) : h.Works (h.delete id).2 := by
  unfold delete
  split
  · exact .inl rfl
  · exact change_works hr (.delete id)
      (fun _ _ _ _ _ hp => (Prod.mk.inj (Except.ok.inj hp)).2.symm) _

/-- What an operation leaves is what it found or what the work of a change leaves. -/
theorem serve_works (env : Surroundings k) (op : Operation k) : h.Works (h.serve env op).2 := by
  have hin : (h.within env).store.refusal = none := hr
  cases op with
  | add new =>
    simp only [serve, replied, add]
    split
    · exact .inl rfl
    · cases new.id with
      | some id => exact change_works_of_unit hin (.add _) _ _ _
      | none =>
        have hdrawn : ((h.within env).drawId env.millis).2.store.refusal = none := hr
        exact change_works_of_unit hdrawn (.add _) _ _ _
  | update node =>
    simp only [serve, replied, update]
    split
    · exact .inl rfl
    · exact change_works_of_unit hin (.update node) _ _ _
  | link a d => exact change_works_of_unit hin (.link a d) _ _ _
  | unlink a d => exact change_works_of_unit hin (.unlink _ a d) _ _ _
  | archive id =>
    rw [serve]
    rcases archive_cases hin env.now env.scheduler env.queue env.job id with
      ⟨e, hends⟩ | ⟨node, ha, ⟨-, hends⟩ | ⟨due, job, -, -, -, hends⟩⟩ <;> rw [hends]
    · exact .inl rfl
    · exact .inl rfl
    · have hwork := ha.run_archive hin
      rw [MemoryStore.run_unlocked hin ha.unlocked] at hwork
      exact .committed (c := .archive id) hwork [id]
  | recover id => exact change_works_of_unit hin (.recover id) _ _ _
  | purge id =>
    simp only [serve, replied, purge]
    split
    · exact .inl rfl
    · exact .inl rfl
    · refine change_works hin (.purge id) (fun touched s t b t' hp => ?_) _
      cases touched <;> exact (Prod.mk.inj (Except.ok.inj hp)).2.symm
  | delete id => exact delete_works hin id
  | deleteByCode code =>
    simp only [serve, replied, deleteByCode]
    split
    · exact .inl rfl
    · split
      · exact .inl rfl
      · exact delete_works hin _

/-- An edge was added if the operation says so. -/
theorem link_of_done {env : Surroundings k} {a d : NodeId k}
    (hdone : (h.serve env (.link a d)).1 = .ok .done) :
    ∃ t, Work.link a d h.store h.store.contents = .ok ((), t) := by
  have hin : (h.within env).store.refusal = none := hr
  rw [serve, replied, link] at hdone
  rcases change_cases hin (do Work.link a d; return ((), some [a, d])) .store with
    ⟨e, hends⟩ | ⟨u, touched, t, hall, -⟩
  · rw [hends] at hdone
    cases hdone
  · obtain ⟨u, t', hwork, -⟩ := Work.bind_eq_ok hall
    exact ⟨t', hwork⟩

omit hr

/-! ## Runs -/

/-- What can be said of the contents of every hierarchy that started empty. -/
structure Charted (h : Hierarchy k) : Prop where
  refusal : h.store.refusal = none
  registered : h.store.contents.Registered
  outlined : ∃ E, h.store.contents.Outlines E

theorem Charted.serve (hh : h.Charted) (env : Surroundings k) (op : Operation k) :
    (h.serve env op).2.Charted where
  refusal := (h.serve_alike env op).refusal.trans hh.refusal
  registered := serve_contents Contents.Registered.frame hh.refusal env
    (Contents.Registered.leads env op) hh.registered
  outlined := by
    obtain ⟨E, hE⟩ := hh.outlined
    rcases serve_works hh.refusal env op with hsame | ⟨c, r, hwork⟩
    · exact ⟨E, hsame ▸ hE⟩
    · exact c.outlines hh.refusal hh.registered.wellFormed hE hwork

theorem Charted.run (hh : h.Charted) (steps : List (Surroundings k × Operation k)) :
    (h.run steps).2.Charted := by
  induction steps generalizing h with
  | nil => exact hh
  | cons step rest ih => exact ih (hh.serve step.1 step.2)

/-- In every state that a hierarchy comes to which started empty, if it has no more than 2³² nodes
then, each stored depth is below their number. So are the sums that are formed when an edge is
added, each of a row that ends at its first node and one that starts at its second; and so are those
in the search of a repair, in whatever change it takes place. -/
theorem run_depths (h : Hierarchy k) (hstart : h.store = {})
    (steps : List (Surroundings k × Operation k))
    (hcount : (h.run steps).2.store.contents.nodeCount ≤ 2 ^ 32) :
    let s := (h.run steps).2
    let t := s.store.contents
    (∀ p ∈ t.rows, p.depth.toNat < t.nodeCount) ∧
      (∀ env a d, (s.serve env (.link a d)).1 = .ok .done →
        ∀ up ∈ t.rows, up.descendant = a → ∀ down ∈ t.rows, down.ancestor = d →
          up.depth.toNat + 1 + down.depth.toNat < t.nodeCount) ∧
      ∀ c : Change k, c.script.work = c.work ∧ c.script.Each (Call.Within (t.nodeCount - 1)) t := by
  have hempty : h.Charted := by
    refine ⟨?_, ?_, fun _ _ => False, ?_⟩ <;> rw [hstart]
    · exact .empty
    · exact .empty
  obtain ⟨hr, hregistered, E, hE⟩ := hempty.run steps
  refine ⟨fun p hp => hE.depth_lt hcount (DepthMap.mem_rows.1 hp), ?_,
    fun c => ⟨c.work_script, c.within hregistered.wellFormed hE⟩⟩
  rintro env a d hdone ⟨x, _, u⟩ hup rfl ⟨_, y, w⟩ hdown rfl
  obtain ⟨t', hwork⟩ := link_of_done hr hdone
  obtain ⟨ha, hd, hnone, -⟩ := Work.link_eq_ok hwork
  exact hE.over_lt hcount ha hd (hE.not_reflTransGen hd hnone) (DepthMap.mk_mem_rows.1 hup)
    (DepthMap.mk_mem_rows.1 hdown)

/-- In a row of three nodes the sum for the edge at its start is as large as one can be, and the
repair after the other edge was removed stays within the limit. -/
theorem run_depths_chain :
    let s := (run { cache := .memory {} } (chain.take 4)).2
    let t := s.store.contents
    t.nodeCount = 3 ∧
      (∃ up ∈ t.rows, ∃ down ∈ t.rows, up.descendant = ⟨1⟩ ∧ down.ancestor = ⟨2⟩ ∧
        down.depth = 1 ∧ up.depth.toNat + 1 + down.depth.toNat < 3) ∧
      (Script.unlink false ⟨2⟩ ⟨3⟩).Each (Call.Within 2) t := by
  intro s t
  have hcount : t.nodeCount = 3 := by decide +kernel
  obtain ⟨-, hsums, hwithin⟩ := run_depths { cache := .memory {} } rfl (chain.take 4)
    (hcount.trans_le (by decide))
  have hsum := hsums .calm ⟨1⟩ ⟨2⟩ rfl ⟨⟨1⟩, ⟨1⟩, 0⟩ (by decide +kernel) rfl
    ⟨⟨2⟩, ⟨3⟩, 1⟩ (by decide +kernel) rfl
  exact ⟨hcount, ⟨⟨⟨1⟩, ⟨1⟩, 0⟩, by decide +kernel, ⟨⟨2⟩, ⟨3⟩, 1⟩, by decide +kernel, rfl, rfl, rfl,
    hsum.trans_eq hcount⟩, (hwithin (.unlink false ⟨2⟩ ⟨3⟩)).2⟩

end Hierarchy

end Lineage
