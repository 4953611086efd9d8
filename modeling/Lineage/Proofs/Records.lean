import Lineage.Hierarchy.Lookup
import Lineage.Proofs.Archiving

/-!
# What becomes of the records

Six calls write to the two tables of records; all others leave both as they are. So a relation
between contents that looks at the records alone holds across an operation if it holds across the
writes of the operation, whatever becomes of the closure rows.

* `Contents.Frame`: such a relation.
* `Work.Leads`: work that keeps to a relation. One lemma for each piece of work, built as it is.
* `Operation.Leads`: the writes of an operation keep to a relation.
* `Hierarchy.serve_leads`, `serve_contents`: then the operation does.
* `Hierarchy.readThrough_leads`: lookups do so anyway.
-/

namespace Lineage

variable {k : Kind}

/-! ## Calls -/

/-- Whether a call writes to a table of records. -/
def Call.writesRecords {α : Type} : Call k α → Bool
  | insertNode _ => true
  | updateNode _ => true
  | deleteNode _ => true
  | archiveNode _ => true
  | restoreNode _ => true
  | deleteArchivedNode _ => true
  | _ => false

namespace Contents

theorem perform_records {α : Type} (s : Contents k) (c : Call k α) (hc : c.writesRecords = false) :
    (s.perform c).2.active = s.active ∧ (s.perform c).2.archived = s.archived := by
  cases c with
  | insertPaths rows =>
    simp only [perform, insertPaths]
    split <;> exact ⟨rfl, rfl⟩
  | insertNode | updateNode | deleteNode => cases hc
  | archiveNode | restoreNode | deleteArchivedNode => cases hc
  | _ => exact ⟨rfl, rfl⟩

/-- A relation that holds between contents with the same records, and that composes. -/
structure Frame (R : Contents k → Contents k → Prop) : Prop where
  of_records : ∀ {s t}, t.active = s.active → t.archived = s.archived → R s t
  trans : ∀ {s t u}, R s t → R t u → R s u

theorem Frame.refl {R : Contents k → Contents k → Prop} (hR : Frame R) (s : Contents k) : R s s :=
  hR.of_records rfl rfl

end Contents

variable {R : Contents k → Contents k → Prop}

/-! ## Work -/

namespace Work

variable {α β : Type}

/-- Work that is not refused leads to contents that are related to those before it. -/
def Leads (R : Contents k → Contents k → Prop) (w : Work k α) : Prop :=
  ∀ s t a t', w s t = .ok (a, t') → R t t'

theorem ask_eq_ok {c : Call k α} {failed : StoreError → HierarchyError k} {s : MemoryStore k}
    {t t' : Contents k} {a : α} (h : ask c failed s t = .ok (a, t')) :
    t.perform c = (.ok a, t') := by
  unfold Work.ask MemoryStore.answer at h
  cases hf : s.failureOf? c.name with
  | some e =>
    rw [hf] at h
    cases h
  | none =>
    rw [hf] at h
    revert h
    rcases t.perform c with ⟨_ | _, t''⟩
    · intro h
      cases h
    · intro h
      obtain ⟨rfl, rfl⟩ := Prod.mk.inj (Except.ok.inj h)
      rfl

theorem bind_eq_ok {w : Work k α} {f : α → Work k β} {s : MemoryStore k} {t t' : Contents k} {b : β}
    (h : (w >>= f) s t = .ok (b, t')) :
    ∃ a t'', w s t = .ok (a, t'') ∧ f a s t'' = .ok (b, t') := by
  rw [bind_apply] at h
  cases hw : w s t with
  | error e =>
    rw [hw] at h
    cases h
  | ok r =>
    rw [hw] at h
    exact ⟨r.1, r.2, rfl, h⟩

theorem Leads.refuse (e : HierarchyError k) : (refuse e : Work k α).Leads R :=
  fun _ _ _ _ h => by cases h

theorem Leads.ask {c : Call k α} {failed : StoreError → HierarchyError k}
    (hc : ∀ t, R t (t.perform c).2) : (ask c failed).Leads R := by
  intro s t a t' h
  have hleads := hc t
  rwa [ask_eq_ok h] at hleads

variable (hR : Contents.Frame R)

include hR

theorem Leads.read {c : Call k α} {failed : StoreError → HierarchyError k}
    (hc : c.writesRecords = false) : (Work.ask c failed).Leads R :=
  .ask fun t => hR.of_records (t.perform_records c hc).1 (t.perform_records c hc).2

theorem Leads.pure (a : α) : (pure a : Work k α).Leads R := by
  intro s t a' t' h
  obtain ⟨-, rfl⟩ := Prod.mk.inj (Except.ok.inj h)
  exact hR.refl t

theorem Leads.bind {w : Work k α} {f : α → Work k β} (hw : w.Leads R)
    (hf : ∀ a, (f a).Leads R) : (w >>= f).Leads R := by
  intro s t b t' h
  obtain ⟨a, t'', hwt, hft⟩ := bind_eq_ok h
  exact hR.trans (hw s t a t'' hwt) (hf a s t'' b t' hft)

section Branches

variable {c : Prop} [Decidable c] {w w' : Work k β}

omit hR in
theorem Leads.ite (hw : w.Leads R) (hw' : w'.Leads R) : (if c then w else w').Leads R := by
  split
  · exact hw
  · exact hw'

/-- Work that goes on unless it is refused. -/
theorem Leads.guard {f : Unit → Work k β} {e : HierarchyError k} (hf : (f ()).Leads R) :
    (if c then Work.refuse e >>= f else f ()).Leads R :=
  .ite (.bind hR (.refuse e) fun _ => hf) hf

theorem Leads.require {f : Unit → Work k β} {e : HierarchyError k} (hf : (f ()).Leads R) :
    (if c then f () else Work.refuse e >>= f).Leads R :=
  .ite hf (.bind hR (.refuse e) fun _ => hf)

end Branches

/-! ## Pieces of work -/

theorem add_leads {node : Node k} (hwrite : ∀ t, R t (t.perform (.insertNode node)).2) :
    (add node).Leads R :=
  .bind hR (.read hR rfl) fun _ => .guard hR <| .bind hR (.read hR rfl) fun _ => .guard hR <|
    .bind hR (.ask hwrite) fun _ => .read hR rfl

theorem update_leads {node : Node k} (hwrite : ∀ t, R t (t.perform (.updateNode node)).2) :
    (update node).Leads R := by
  have hwritten : (do unless ← ask (.updateNode node) do refuse (.notFound (.node node.id)) :
      Work k Unit).Leads R := .bind hR (.ask hwrite) fun _ => .ite (.pure hR _) (.refuse _)
  refine .bind hR (.read hR rfl) fun current => ?_
  cases current with
  | none => exact .refuse _
  | some current =>
    refine .ite (.bind hR (.read hR rfl) fun owner => ?_) hwritten
    cases owner with
    | none => exact hwritten
    | some owner => exact .guard hR hwritten

theorem requireNode_leads (id : NodeId k) : (requireNode id).Leads R :=
  .bind hR (.read hR rfl) fun _ => .ite (.refuse _) (.pure hR _)

theorem hasEdge_leads (a d : NodeId k) : (hasEdge a d).Leads R :=
  .bind hR (.read hR rfl) fun _ => .pure hR _

theorem link_leads (a d : NodeId k) : (link a d).Leads R :=
  .bind hR (requireNode_leads hR d) fun _ => .bind hR (requireNode_leads hR a) fun _ =>
    .bind hR (.read hR rfl) fun _ => .guard hR <| .bind hR (hasEdge_leads hR a d) fun _ =>
      .guard hR <| .bind hR (.read hR rfl) fun _ => .bind hR (.read hR rfl) fun _ =>
        .bind hR (.read hR rfl) fun _ => .read hR rfl

theorem prune_leads : (prune : Work k Unit).Leads R :=
  .bind hR (.read hR rfl) fun _ => .ite (.pure hR _) <|
    .bind hR (.read hR rfl) fun _ => .bind hR (.read hR rfl) fun _ => .read hR rfl

theorem unlink_leads (leafOnly : Bool) (a d : NodeId k) : (unlink leafOnly a d).Leads R := by
  have hcut : (do
      unless ← hasEdge a d do refuse (.notFound (.path a d))
      let _ ← ask (.deletePaths [Path.direct a d])
      prune : Work k Unit).Leads R :=
    .bind hR (hasEdge_leads hR a d) fun _ => .require hR <|
      .bind hR (.read hR rfl) fun _ => prune_leads hR
  exact .ite (.bind hR (.read hR rfl) fun _ => .guard hR hcut) hcut

theorem archive_leads {id : NodeId k} (hwrite : ∀ t, R t (t.perform (.archiveNode id)).2) :
    (archive id).Leads R :=
  .bind hR (.ask hwrite) fun _ => .ite (.pure hR _) (.refuse _)

theorem recover_leads {id : NodeId k} (hwrite : ∀ t, R t (t.perform (.restoreNode id)).2) :
    (recover id).Leads R :=
  .bind hR (.ask hwrite) fun _ => .ite (.pure hR _) (.refuse _)

theorem detach_leads (id : NodeId k) : (detach id).Leads R :=
  .bind hR (.bind hR (.read hR rfl) fun _ => .pure hR _) fun _ => .bind hR (.read hR rfl) fun _ =>
    .bind hR (prune_leads hR) fun _ => .pure hR _

theorem purge_leads {id : NodeId k} (hwrite : ∀ t, R t (t.perform (.deleteArchivedNode id)).2) :
    (purge id).Leads R :=
  .bind hR (.read hR rfl) fun _ => .ite (.pure hR _) <|
    .bind hR (.ask hwrite) fun _ => .bind hR (detach_leads hR id) fun _ => .pure hR _

theorem delete_leads {id : NodeId k} (hwrite : ∀ t, R t (t.perform (.deleteNode id)).2)
    (hwrite' : ∀ t, R t (t.perform (.deleteArchivedNode id)).2) : (delete id).Leads R :=
  .bind hR (.ask hwrite) fun _ => .require hR <| .bind hR (.ask hwrite') fun _ =>
    detach_leads hR id

end Work

/-! ## Operations -/

/-- The writes of an operation keep to a relation. Nodes without flaws are written, and only nodes
out of use are archived or removed. -/
def Operation.Leads (R : Contents k → Contents k → Prop) (env : Surroundings k) :
    Operation k → Prop
  | .add new => new.flaw? = none → ∀ id, (Work.add (new.toNode id)).Leads R
  | .update node => node.flaw? = none → (Work.update node).Leads R
  | .link _ _ => True
  | .unlink _ _ => True
  | .archive id => env.consumersOf id = .ok [] → (Work.archive id).Leads R
  | .recover id => (Work.recover id).Leads R
  | .purge id => env.consumersOf id = .ok [] → (Work.purge id).Leads R
  | .delete id => env.consumersOf id = .ok [] → (Work.delete id).Leads R
  | .deleteByCode _ => ∀ id, env.consumersOf id = .ok [] → (Work.delete id).Leads R

namespace Hierarchy

variable {h h' : Hierarchy k} {α : Type}

/-- The lock is as it was, and the contents are related. -/
structure Leads (R : Contents k → Contents k → Prop) (h h' : Hierarchy k) : Prop where
  locked : h'.store.locked = h.store.locked
  contents : R h.store.contents h'.store.contents

theorem Leads.congr {j : Hierarchy k} (hs : j.store = h.store) (hj : j.Leads R h') :
    h.Leads R h' :=
  ⟨hs ▸ hj.locked, hs ▸ hj.contents⟩

theorem Leads.congr_right {j : Hierarchy k} (hs : h'.store = j.store) (hj : h.Leads R j) :
    h.Leads R h' :=
  ⟨hs ▸ hj.locked, hs ▸ hj.contents⟩

variable (hR : Contents.Frame R)

include hR

theorem Leads.of_store (hs : h'.store = h.store) : h.Leads R h' :=
  ⟨by rw [hs], hR.of_records (by rw [hs]) (by rw [hs])⟩

variable (hr : h.store.refusal = none)

include hr

theorem change_leads {w : Work k (α × Option (List (NodeId k)))} (hw : w.Leads R)
    (failed : StoreError → HierarchyError k) : h.Leads R (h.change w failed).2 := by
  rcases change_cases hr w failed with ⟨e, hends⟩ | ⟨a, _ | touched, t, hwork, hends⟩ <;> rw [hends]
  · exact .of_store hR rfl
  · exact .of_store hR rfl
  · refine ⟨?_, ?_⟩ <;> rw [committed_store]
    exact hw _ _ _ _ hwork

/-- Work without an answer, done in a transaction. -/
theorem change_leads_of_unit {w : Work k Unit} (hw : w.Leads R) (a : α)
    (touched : List (NodeId k)) (failed : StoreError → HierarchyError k) :
    h.Leads R (h.change (do w; return (a, some touched)) failed).2 :=
  change_leads hR hr (.bind hR hw fun _ => .pure hR _) failed

theorem purge_leads {id : NodeId k} (hw : h.consumers id = .ok [] → (Work.purge id).Leads R) :
    h.Leads R (h.purge id).2 := by
  unfold purge
  split
  case h_1 => exact .of_store hR rfl
  case h_2 => exact .of_store hR rfl
  case h_3 hunused =>
    refine change_leads hR hr (.bind hR (hw hunused) fun touched => ?_) _
    cases touched <;> exact .pure hR _

theorem runPurge_leads (hw : ∀ id, h.consumers id = .ok [] → (Work.purge id).Leads R) (job : Job) :
    h.Leads R (runPurge job h).2 := by
  cases hid : purgeTarget? (k := k) job.payload with
  | none =>
    simp only [runPurge, hid]
    exact .of_store hR rfl
  | some id =>
    rw [runPurge_eq hid]
    exact purge_leads hR hr (hw id)

theorem delete_leads {id : NodeId k} (hw : h.requireUnused id = .ok () → (Work.delete id).Leads R) :
    h.Leads R (h.delete id).2 := by
  unfold delete
  split
  case h_1 => exact .of_store hR rfl
  case h_2 hunused => exact change_leads hR hr (.bind hR (hw hunused) fun _ => .pure hR _) _

variable (env : Surroundings k)

/-- An operation other than an archiving does not touch the lock. -/
theorem serve_leads {op : Operation k} (hop : op.Leads R env) (harchive : ∀ id, op ≠ .archive id) :
    h.Leads R (h.serve env op).2 := by
  have hin : (h.within env).store.refusal = none := hr
  refine .congr (j := h.within env) rfl ?_
  cases op with
  | add new =>
    simp only [serve, replied, add]
    cases hflaw : new.flaw? with
    | some flaw => exact .of_store hR rfl
    | none =>
      cases new.id with
      | some id => exact change_leads_of_unit hR hin (hop hflaw _) _ _ _
      | none =>
        have hdrawn : ((h.within env).drawId env.millis).2.store.refusal = none := hr
        exact .congr (j := ((h.within env).drawId env.millis).2) rfl <|
          change_leads_of_unit hR hdrawn (hop hflaw _) _ _ _
  | update node =>
    simp only [serve, replied, update]
    cases hflaw : node.flaw? with
    | some flaw => exact .of_store hR rfl
    | none => exact change_leads_of_unit hR hin (hop hflaw) _ _ _
  | link a d => exact change_leads_of_unit hR hin (Work.link_leads hR a d) _ _ _
  | unlink a d => exact change_leads_of_unit hR hin (Work.unlink_leads hR _ a d) _ _ _
  | archive id => exact absurd rfl (harchive id)
  | recover id => exact change_leads_of_unit hR hin hop _ _ _
  | purge id => exact purge_leads hR hin fun hu => hop (unused_of_consumers hu)
  | delete id => exact delete_leads hR hin fun hu => hop (unused_of_requireUnused hu)
  | deleteByCode code =>
    simp only [serve, replied, deleteByCode]
    split
    · exact .of_store hR rfl
    · split
      · exact .of_store hR rfl
      · exact delete_leads hR hin fun hu => hop _ (unused_of_requireUnused hu)

/-- What an operation leaves is related to what was before, whatever became of the operation. -/
theorem serve_contents {op : Operation k} (hop : op.Leads R env) :
    R h.store.contents (h.serve env op).2.store.contents := by
  by_cases harchive : ∃ id, op = .archive id
  · obtain ⟨id, rfl⟩ := harchive
    have hin : (h.within env).store.refusal = none := hr
    rw [serve]
    rcases archive_cases hin env.now env.scheduler env.queue env.job id with
      ⟨e, hends⟩ | ⟨node, ha, ⟨-, hends⟩ | ⟨due, job, -, -, -, hends⟩⟩ <;> rw [hends]
    · exact hR.refl _
    · exact hR.refl _
    · have hwork := ha.run_archive hin
      rw [MemoryStore.run_unlocked hin ha.unlocked] at hwork
      simp only [committed_store]
      exact hop (unused_of_requireUnused ha.unused) _ _ _ _ hwork
  · exact (serve_leads hR hr env hop fun id he => harchive ⟨id, he⟩).contents

/-! ## Lookups -/

omit hR hr in
theorem fill_store (h : Hierarchy k) (v : NodeView k) (seen : UInt64) :
    (h.fill v seen).store = h.store := by
  unfold fill
  split
  · rfl
  · dsimp only
    split
    · rfl
    · rw [evict_store]

theorem letRivalIn_leads : h.Leads R h.letRivalIn := by
  unfold letRivalIn
  split
  · have hquiet : { h with rival := none }.store.refusal = none := hr
    exact .congr (j := { h with rival := none }) rfl <|
      change_leads_of_unit hR hquiet (Work.link_leads hR _ _) _ _ _
  · exact .of_store hR rfl

/-- A lookup writes no record, though an edge may be added beside it. -/
theorem readThrough_leads (hit : Except CacheError (Option (NodeView k)))
    (w : Work k (NodeView k)) : h.Leads R (h.readThrough hit w).2 := by
  unfold readThrough
  split
  · exact .of_store hR rfl
  · cases h.look w with
    | error e => exact .of_store hR rfl
    | ok v => exact .congr_right (fill_store ..) (letRivalIn_leads hR hr)

end Hierarchy

end Lineage
