import Lineage.Proofs.Operation

/-!
# Transactions and what they leave alone

A store that refuses nothing answers every call and takes every commit. Whatever an operation does,
it changes neither the settings of a hierarchy nor what its store refuses.

* `MemoryStore.answer_eq`, `commit_eq`: calls and commits on a store that refuses nothing.
* `Hierarchy.look_of_open`, `look_of_locked`: lookups in such a store, whether it is locked or not.
* `Hierarchy.committed`: a hierarchy after a commit. `Hierarchy.change_cases`: the endings of a
  change in a transaction.
* `Hierarchy.Alike`: two hierarchies with the same settings and refusals. Every operation leads from
  one to the other (`Hierarchy.serve_alike`).
-/

namespace Lineage

variable {k : Kind} {α : Type}

/-! ## Stores that refuse nothing -/

namespace MemoryStore

variable {s : MemoryStore k} (hs : s.refusal = none)

include hs

theorem failureOf?_eq_none (method : String) : s.failureOf? method = none := by
  rw [failureOf?, hs]
  rfl

theorem begin_eq : s.begin = s.committed := by rw [begin, failureOf?_eq_none hs]

theorem answer_eq (c : Call k α) (t : Contents k) : s.answer c t = t.perform c := by
  rw [answer, failureOf?_eq_none hs]

theorem commit_eq (t : Contents k) : s.commit t = .ok { s with contents := t } := by
  rw [commit, failureOf?_eq_none hs]

theorem run_unlocked (hl : s.locked = false) (w : Work k α) : w.run s = w s s.contents := by
  have hbegin : s.begin = .ok s.contents := by
    rw [begin_eq hs, committed, hl]
    rfl
  rw [Work.run, hbegin]

theorem run_locked (hl : s.locked = true) (w : Work k α) :
    w.run s = .error (.store lockedError) := by
  have hbegin : s.begin = .error lockedError := by
    rw [begin_eq hs, committed, hl]
    rfl
  rw [Work.run, hbegin]

end MemoryStore

namespace Hierarchy

/-! ## Lookups -/

section

variable {h : Hierarchy k} (hr : h.store.refusal = none)

include hr

theorem look_of_open (hl : h.store.locked = false) {w : Work k α} {a : α} {t : Contents k}
    (hw : w h.store h.store.contents = .ok (a, t)) : h.look w = .ok a := by
  rw [look, MemoryStore.run_unlocked hr hl, hw]
  rfl

theorem look_of_locked (hl : h.store.locked = true) (w : Work k α) :
    h.look w = .error (.store MemoryStore.lockedError) := by
  rw [look, MemoryStore.run_locked hr hl]
  rfl

end

/-! ## Commits -/

/-- The hierarchy after other contents were committed that touched some nodes. -/
def committed (h : Hierarchy k) (t : Contents k) (touched : List (NodeId k)) : Hierarchy k :=
  { h with store := { h.store with contents := t } }.invalidate touched

@[simp] theorem evict_store (h : Hierarchy k) (id : NodeId k) : (h.evict id).store = h.store := by
  unfold evict
  split <;> rfl

@[simp] theorem evict_settings (h : Hierarchy k) (id : NodeId k) :
    (h.evict id).settings = h.settings := by
  unfold evict
  split <;> rfl

theorem foldl_evict_store (touched : List (NodeId k)) (h : Hierarchy k) :
    (touched.foldl evict h).store = h.store := by
  induction touched generalizing h with
  | nil => rfl
  | cons id rest ih => rw [List.foldl_cons, ih, evict_store]

theorem foldl_evict_settings (touched : List (NodeId k)) (h : Hierarchy k) :
    (touched.foldl evict h).settings = h.settings := by
  induction touched generalizing h with
  | nil => rfl
  | cons id rest ih => rw [List.foldl_cons, ih, evict_settings]

@[simp] theorem invalidate_store (h : Hierarchy k) (touched : List (NodeId k)) :
    (h.invalidate touched).store = h.store :=
  foldl_evict_store touched _

@[simp] theorem invalidate_settings (h : Hierarchy k) (touched : List (NodeId k)) :
    (h.invalidate touched).settings = h.settings :=
  foldl_evict_settings touched _

@[simp] theorem committed_store (h : Hierarchy k) (t : Contents k) (touched : List (NodeId k)) :
    (h.committed t touched).store = { h.store with contents := t } :=
  invalidate_store _ touched

@[simp] theorem committed_settings (h : Hierarchy k) (t : Contents k)
    (touched : List (NodeId k)) : (h.committed t touched).settings = h.settings :=
  invalidate_settings _ touched

/-- A change in a transaction gives up, or its work is done. -/
theorem change_cases {h : Hierarchy k} (hr : h.store.refusal = none)
    (w : Work k (α × Option (List (NodeId k)))) (failed : StoreError → HierarchyError k) :
    (∃ e, h.change w failed = (.error e, h)) ∨
      ∃ a touched t, w h.store h.store.contents = .ok ((a, touched), t) ∧
        h.change w failed =
          (.ok a, match touched with
            | none => h
            | some ids => h.committed t ids) := by
  unfold change
  cases hl : h.store.locked with
  | true =>
    rw [MemoryStore.run_locked hr hl]
    exact .inl ⟨_, rfl⟩
  | false =>
    rw [MemoryStore.run_unlocked hr hl]
    rcases hwork : w h.store h.store.contents with e | ⟨⟨a, _ | touched⟩, t⟩
    · exact .inl ⟨e, rfl⟩
    · exact .inr ⟨a, none, t, rfl, rfl⟩
    · simp only [MemoryStore.commit_eq hr]
      exact .inr ⟨a, some touched, t, rfl, rfl⟩

/-! ## What every operation keeps -/

/-- The settings are the same, and the stores refuse the same. -/
structure Alike (h h' : Hierarchy k) : Prop where
  settings : h'.settings = h.settings
  refusal : h'.store.refusal = h.store.refusal

variable {h h' h'' : Hierarchy k}

theorem Alike.trans (hh : h.Alike h') (hh' : h'.Alike h'') : h.Alike h'' :=
  ⟨hh'.settings.trans hh.settings, hh'.refusal.trans hh.refusal⟩

theorem commit_alike {store : MemoryStore k} {t : Contents k}
    (hstore : h.store.commit t = .ok store) (touched : List (NodeId k)) :
    h.Alike ({ h with store }.invalidate touched) := by
  unfold MemoryStore.commit at hstore
  split at hstore
  · cases hstore
  · obtain rfl := Except.ok.inj hstore
    exact ⟨invalidate_settings .., by rw [invalidate_store]⟩

theorem change_alike (h : Hierarchy k) (w : Work k (α × Option (List (NodeId k))))
    (failed : StoreError → HierarchyError k) : h.Alike (h.change w failed).2 := by
  unfold change
  split
  · exact ⟨rfl, rfl⟩
  · exact ⟨rfl, rfl⟩
  · split
    case h_1 => exact ⟨rfl, rfl⟩
    case h_2 store hstore => exact commit_alike hstore _

theorem archiveBy_alike {σ : Type} (h : Hierarchy k)
    (schedule : Instant → σ → Except QueueError Unit × σ) (jobs : σ) (now : Instant)
    (id : NodeId k) : h.Alike (h.archiveBy schedule jobs now id).2.1 := by
  unfold archiveBy
  split
  · exact ⟨rfl, rfl⟩
  split
  · exact ⟨rfl, rfl⟩
  split
  · exact ⟨rfl, rfl⟩
  split
  · exact ⟨rfl, rfl⟩
  split
  · exact ⟨rfl, rfl⟩
  split
  case h_1 => exact ⟨rfl, rfl⟩
  case h_2 store hstore => exact commit_alike hstore _

theorem purge_alike (h : Hierarchy k) (id : NodeId k) : h.Alike (h.purge id).2 := by
  unfold purge
  split
  · exact ⟨rfl, rfl⟩
  · exact ⟨rfl, rfl⟩
  · exact change_alike h _ _

theorem delete_alike (h : Hierarchy k) (id : NodeId k) : h.Alike (h.delete id).2 := by
  unfold delete
  split
  · exact ⟨rfl, rfl⟩
  · exact change_alike h _ _

/-- No operation changes the settings or what the store refuses. -/
theorem serve_alike (h : Hierarchy k) (env : Surroundings k) (op : Operation k) :
    h.Alike (h.serve env op).2 := by
  have hin : h.Alike (h.within env) := ⟨rfl, rfl⟩
  cases op with
  | add new =>
    refine hin.trans ?_
    simp only [serve, replied, add]
    split
    · exact ⟨rfl, rfl⟩
    · split
      · exact change_alike ..
      · have hdrawn : (h.within env).Alike ((h.within env).drawId env.millis).2 := ⟨rfl, rfl⟩
        exact hdrawn.trans (change_alike ..)
  | update node =>
    refine hin.trans ?_
    simp only [serve, replied, update]
    split
    · exact ⟨rfl, rfl⟩
    · exact change_alike ..
  | link a d => exact hin.trans (change_alike ..)
  | unlink a d => exact hin.trans (change_alike ..)
  | archive id => exact hin.trans (archiveBy_alike ..)
  | recover id => exact hin.trans (change_alike ..)
  | purge id => exact hin.trans (purge_alike _ id)
  | delete id => exact hin.trans (delete_alike _ id)
  | deleteByCode code =>
    refine hin.trans ?_
    simp only [serve, replied, deleteByCode]
    split
    · exact ⟨rfl, rfl⟩
    · split
      · exact ⟨rfl, rfl⟩
      · exact delete_alike ..

theorem run_alike (h : Hierarchy k) (steps : List (Surroundings k × Operation k)) :
    h.Alike (h.run steps).2 := by
  induction steps generalizing h with
  | nil => exact ⟨rfl, rfl⟩
  | cons step rest ih => exact (h.serve_alike step.1 step.2).trans (ih _)

end Hierarchy

end Lineage
