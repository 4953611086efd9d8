import Lineage.Proofs.Records

/-!
# What is done beside archiving

An archiving is the only operation that adds to the archive, and the only one that can be cut off
and lock the store. All others leave the lock as it is and release nodes from the archive at most.

* `Contents.Releases`: nothing is archived that was not so before.
* `Hierarchy.serve_releases`: the operations.
* `Hierarchy.serve_not_aborted`: they always give an answer.
* `Hierarchy.readThrough_releases`: lookups, beside which an edge may be added.
-/

namespace Lineage

variable {k : Kind}

/-! ## Calls -/

/-- Whether a call moves a record to the archive. -/
def Call.archives {α : Type} : Call k α → Bool
  | archiveNode _ => true
  | _ => false

namespace Contents

variable {s t : Contents k}

/-- What is archived afterwards was archived before. -/
def Releases (s t : Contents k) : Prop :=
  ∀ id node, t.archived.get? id = some node → s.archived.get? id = some node

theorem Releases.of_eq (h : t.archived = s.archived) : s.Releases t :=
  fun _ _ hn => h ▸ hn

theorem Releases.of_erase {id : NodeId k} (h : t.archived = s.archived.erase id) :
    s.Releases t :=
  fun _ _ hn => Table.get?_of_erase (h ▸ hn)

theorem Releases.frame : Frame (Releases (k := k)) where
  of_records _ h := .of_eq h
  trans hst htu id node hn := hst id node (htu id node hn)

/-- Of all calls one adds to the archive. -/
theorem perform_releases {α : Type} (s : Contents k) (c : Call k α) (hc : c.archives = false) :
    s.Releases (s.perform c).2 := by
  cases c with
  | archiveNode id => cases hc
  | restoreNode id =>
    simp only [perform, restoreNode]
    split
    · exact .of_erase rfl
    · exact .of_eq rfl
  | deleteArchivedNode id => exact .of_erase rfl
  | insertNode node =>
    simp only [perform, insertNode]
    split
    · exact .of_eq rfl
    · split <;> exact .of_eq rfl
  | updateNode node =>
    simp only [perform, updateNode]
    split <;> exact .of_eq rfl
  | insertPaths rows =>
    simp only [perform, insertPaths]
    split <;> exact .of_eq rfl
  | _ => exact .of_eq rfl

end Contents

/-! ## Operations -/

/-- Of all operations one adds to the archive. -/
theorem Operation.leads_releases (env : Surroundings k) {op : Operation k}
    (hop : ∀ id, op ≠ .archive id) : op.Leads Contents.Releases env := by
  have hR := Contents.Releases.frame (k := k)
  cases op with
  | add new => exact fun _ id => Work.add_leads hR fun t => t.perform_releases _ rfl
  | update node => exact fun _ => Work.update_leads hR fun t => t.perform_releases _ rfl
  | link a d => trivial
  | unlink a d => trivial
  | archive id => exact absurd rfl (hop id)
  | recover id => exact Work.recover_leads hR fun t => t.perform_releases _ rfl
  | purge id => exact fun _ => Work.purge_leads hR fun t => t.perform_releases _ rfl
  | delete id =>
    exact fun _ => Work.delete_leads hR (fun t => t.perform_releases _ rfl)
      fun t => t.perform_releases _ rfl
  | deleteByCode code =>
    exact fun id _ => Work.delete_leads hR (fun t => t.perform_releases _ rfl)
      fun t => t.perform_releases _ rfl

namespace Hierarchy

variable {h : Hierarchy k} {α : Type}

/-- The lock is as it was, and what is archived afterwards was archived before. -/
structure Releases (h h' : Hierarchy k) : Prop where
  locked : h'.store.locked = h.store.locked
  archived : h.store.contents.Releases h'.store.contents

theorem Leads.releases {h' : Hierarchy k} (hh : h.Leads Contents.Releases h') : h.Releases h' :=
  ⟨hh.locked, hh.contents⟩

theorem serve_releases (hr : h.store.refusal = none) (env : Surroundings k) {op : Operation k}
    (hop : ∀ id, op ≠ .archive id) : h.Releases (h.serve env op).2 :=
  (serve_leads Contents.Releases.frame hr env (Operation.leads_releases env hop) hop).releases

theorem replied_not_aborted (reply : α → Reply k) (r : Except (HierarchyError k) α × Hierarchy k)
    (cause : Abort) : (replied reply r).1 ≠ .error (.aborted cause) := by
  rcases r with ⟨_ | _, _⟩ <;> exact fun he => by cases he

theorem serve_not_aborted (h : Hierarchy k) (env : Surroundings k) {op : Operation k}
    (hop : ∀ id, op ≠ .archive id) (cause : Abort) :
    (h.serve env op).1 ≠ .error (.aborted cause) := by
  cases op with
  | archive id => exact absurd rfl (hop id)
  | _ => exact replied_not_aborted _ _ cause

/-! ## Lookups -/

theorem fill_settings (h : Hierarchy k) (v : NodeView k) (seen : UInt64) :
    (h.fill v seen).settings = h.settings := by
  unfold fill
  split
  · rfl
  · dsimp only
    split
    · rfl
    · rw [evict_settings]

theorem letRivalIn_alike (h : Hierarchy k) : h.Alike h.letRivalIn := by
  unfold letRivalIn
  split
  · have hquiet : h.Alike { h with rival := none } := ⟨rfl, rfl⟩
    exact hquiet.trans (change_alike ..)
  · exact ⟨rfl, rfl⟩

theorem readThrough_alike (hit : Except CacheError (Option (NodeView k)))
    (w : Work k (NodeView k)) (h : Hierarchy k) : h.Alike (h.readThrough hit w).2 := by
  unfold readThrough
  split
  · exact ⟨rfl, rfl⟩
  · cases h.look w with
    | error e => exact ⟨rfl, rfl⟩
    | ok v =>
      have hrival := h.letRivalIn_alike
      refine hrival.trans ⟨fill_settings .., ?_⟩
      simp only [fill_store]

theorem readThrough_releases (hr : h.store.refusal = none)
    (hit : Except CacheError (Option (NodeView k))) (w : Work k (NodeView k)) :
    h.Releases (h.readThrough hit w).2 :=
  (readThrough_leads Contents.Releases.frame hr hit w).releases

end Hierarchy

end Lineage
