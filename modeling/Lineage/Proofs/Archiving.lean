import Lineage.Proofs.Instant
import Lineage.Proofs.Work

/-!
# What archiving does

An archiving is refused, or it is cut off because the grace period leads past the last instant, or
the scheduler is asked and its answer decides.

* `Duration.Overruns`: the span leads from an instant past the last one.
* `Hierarchy.Archivable`: the node is active and nobody uses it.
* `Hierarchy.purgeTarget?_payload`: a purge finds the id for which it was asked.
* `Hierarchy.archiveBy_cases`: the three endings, each with what it leaves.
* `Hierarchy.archive_cases`: the same with the queue, to which one job is added.
-/

namespace Lineage

variable {k : Kind}

theorem Duration.nanos_of_step? {d : Duration} {n : Nat} (h : d.step? = some n) : d.nanos = n := by
  unfold step? at h
  split at h
  · exact Option.some.inj h
  · cases h

/-- The span can be added to instants, and leads from this one past the last one. -/
def Duration.Overruns (d : Duration) (now : Instant) : Prop :=
  ∃ n, d.step? = some n ∧ now.add? n = none

instance (d : Duration) (now : Instant) : Decidable (d.Overruns now) :=
  decidable_of_iff (d.step?.any (fun n => (now.add? n).isNone) = true) <| by
    simp only [Duration.Overruns, Option.any_eq_true, Option.isNone_iff_eq_none]

/-- A job that waits for its first attempt at purging a node; the purge was asked for at one
instant and is due at another. -/
structure Job.Purges (job : Job) (hierarchy : String) (id : Int) (asked due : Instant) : Prop where
  kind : job.kind = .purgeOf hierarchy
  payload : job.payload = PurgeScheduler.payload id
  status : job.status = .pending
  created : job.created = asked
  scheduled : job.scheduled = some due

theorem Hierarchy.purgeTarget?_payload (id : NodeId k) :
    purgeTarget? (PurgeScheduler.payload id.toInt) = some id := by
  have hof : NodeId.ofInt? id.toInt = some id := by
    simp [NodeId.ofInt?, NodeId.toInt, Int64.ofInt_toInt]
  exact hof

theorem Hierarchy.runPurge_eq {job : Job} {id : NodeId k}
    (hid : purgeTarget? job.payload = some id) (h : Hierarchy k) :
    (runPurge job h).2 = (h.purge id).2 := by
  simp only [runPurge, hid]
  rcases h.purge id with ⟨_ | _, _⟩ <;> rfl

/-- A request for a purge is refused, or puts a job into the queue under the new id. -/
theorem PurgeScheduler.request_cases (s : PurgeScheduler) (hierarchy : String) (id : Int)
    (due : Instant) (u : Uuid) (now : Instant) (q : JobQueue) :
    (∃ e, s.request hierarchy id due u now q = (.error e, q)) ∨
      ∃ job : Job, job.id = u ∧ q.jobs.get? job.id = none ∧ job.Purges hierarchy id now due ∧
        s.request hierarchy id due u now q =
          (.ok (), { q with jobs := q.jobs.insert job.id job }) := by
  unfold request schedule JobQueue.enqueue
  cases s.outage with
  | some e => exact .inl ⟨e, rfl⟩
  | none =>
    cases hu : q.jobs.contains u with
    | true => exact .inl ⟨.alreadyExists u, by simp [Job.new, hu]⟩
    | false =>
      exact .inr ⟨{ Job.new u (.purgeOf hierarchy) (payload id) now with
        policy := s.policy, scheduled := some due }, rfl, Table.not_contains_iff.1 hu,
        ⟨rfl, rfl, rfl, rfl, rfl⟩, by simp [Job.new, hu]⟩

/-- The contents after an active node was archived. -/
def Contents.withArchived (s : Contents k) (id : NodeId k) (node : Node k) : Contents k :=
  { s with active := s.active.erase id, archived := s.archived.insert id node }

theorem Work.archive_apply {s : MemoryStore k} (hs : s.refusal = none) (id : NodeId k)
    (t : Contents k) :
    Work.archive id s t =
      match t.active.get? id with
      | none => .error (.notFound (.node id))
      | some node => .ok ((), t.withArchived id node) := by
  unfold Work.archive
  simp only [bind_apply, ask_apply hs, Contents.perform, settled_ok, ok_bind, Contents.archiveNode]
  cases t.active.get? id <;> rfl

namespace Hierarchy

/-! ## Nodes in use -/

theorem consumers_within (h : Hierarchy k) (env : Surroundings k) (id : NodeId k) :
    (∃ e, env.consumersOf id = .error e ∧
      (h.within env).consumers id = .error (.store (.unavailable e.message))) ∨
    env.consumersOf id = .ok [] ∧ (h.within env).consumers id = .ok [] ∨
    ∃ c cs, env.consumersOf id = .ok (c :: cs) ∧
      (h.within env).consumers id = .ok (c.code :: cs.map (·.code)) := by
  have hguard : (h.within env).guard.consumersOf (h.within env).registry id =
      env.consumersOf id := rfl
  rw [consumers, hguard]
  rcases env.consumersOf id with e | _ | ⟨c, cs⟩
  · exact .inl ⟨e, rfl, rfl⟩
  · exact .inr (.inl ⟨rfl, rfl⟩)
  · exact .inr (.inr ⟨c, cs, rfl, rfl⟩)

theorem requireUnused_within (h : Hierarchy k) (env : Surroundings k) (id : NodeId k) :
    (∃ e, env.consumersOf id = .error e ∧
      (h.within env).requireUnused id = .error (.store (.unavailable e.message))) ∨
    env.consumersOf id = .ok [] ∧ (h.within env).requireUnused id = .ok () ∨
    ∃ c cs, env.consumersOf id = .ok (c :: cs) ∧
      (h.within env).requireUnused id = .error (.inUse id (c.code :: cs.map (·.code))) := by
  unfold requireUnused
  rcases consumers_within h env id with ⟨e, hc, hu⟩ | ⟨hc, hu⟩ | ⟨c, cs, hc, hu⟩ <;>
    rw [hu]
  · exact .inl ⟨e, hc, rfl⟩
  · exact .inr (.inl ⟨hc, rfl⟩)
  · exact .inr (.inr ⟨c, cs, hc, rfl⟩)

theorem unused_of_consumers {h : Hierarchy k} {env : Surroundings k} {id : NodeId k}
    (hc : (h.within env).consumers id = .ok []) : env.consumersOf id = .ok [] := by
  rcases consumers_within h env id with ⟨e, -, hu⟩ | ⟨hunused, -⟩ | ⟨c, cs, -, hu⟩
  · rw [hu] at hc
    cases hc
  · exact hunused
  · rw [hu] at hc
    cases hc

theorem unused_of_requireUnused {h : Hierarchy k} {env : Surroundings k} {id : NodeId k}
    (hc : (h.within env).requireUnused id = .ok ()) : env.consumersOf id = .ok [] := by
  rcases requireUnused_within h env id with ⟨e, -, hu⟩ | ⟨hunused, -⟩ | ⟨c, cs, -, hu⟩
  · rw [hu] at hc
    cases hc
  · exact hunused
  · rw [hu] at hc
    cases hc

/-! ## Endings -/

/-- A node can be archived if it is active, nobody uses it and the store can be worked on. -/
structure Archivable (h : Hierarchy k) (id : NodeId k) (node : Node k) : Prop where
  unused : h.requireUnused id = .ok ()
  unlocked : h.store.locked = false
  active : h.store.contents.active.get? id = some node

variable {h : Hierarchy k} (hr : h.store.refusal = none) {σ : Type}
  (schedule : Instant → σ → Except QueueError Unit × σ) (jobs : σ) (now : Instant)
  {id : NodeId k} {node : Node k}

include hr

theorem Archivable.run_archive (ha : h.Archivable id node) :
    (Work.archive id).run h.store = .ok ((), h.store.contents.withArchived id node) := by
  rw [MemoryStore.run_unlocked hr ha.unlocked, Work.archive_apply hr, ha.active]

/-- An archiving whose grace period leads past the last instant is cut off and locks the store. -/
theorem Archivable.archiveBy_of_overruns (ha : h.Archivable id node)
    (ho : h.settings.gracePeriod.Overruns now) :
    h.archiveBy schedule jobs now id =
      (.error (.aborted .pastLastInstant), { h with store := h.store.lock }, jobs) := by
  obtain ⟨n, hn, hnow⟩ := ho
  simp only [archiveBy, ha.unused, ha.run_archive hr, hn, hnow]

/-- The endings of an archiving. -/
theorem archiveBy_cases (id : NodeId k) :
    (∃ e, h.archiveBy schedule jobs now id = (.error (.refused e), h, jobs)) ∨
    ∃ node, h.Archivable id node ∧
      (h.settings.gracePeriod.Overruns now ∧ h.archiveBy schedule jobs now id =
          (.error (.aborted .pastLastInstant), { h with store := h.store.lock }, jobs) ∨
        ∃ n due, h.settings.gracePeriod.step? = some n ∧ now.add? n = some due ∧
          match schedule due jobs with
          | (.error e, jobs') => h.archiveBy schedule jobs now id =
              (.error (.refused (.scheduler (notEnqueued e))), h, jobs')
          | (.ok (), jobs') => h.archiveBy schedule jobs now id =
              (.ok (), h.committed (h.store.contents.withArchived id node) [id], jobs')) := by
  cases hu : h.requireUnused id with
  | error e => exact .inl ⟨e, by rw [archiveBy, hu]⟩
  | ok =>
    cases hl : h.store.locked with
    | true =>
      refine .inl ⟨.store MemoryStore.lockedError, ?_⟩
      simp only [archiveBy, hu, MemoryStore.run_locked hr hl]
    | false =>
      cases hn : h.store.contents.active.get? id with
      | none =>
        refine .inl ⟨.notFound (.node id), ?_⟩
        simp only [archiveBy, hu, MemoryStore.run_unlocked hr hl, Work.archive_apply hr, hn]
      | some node =>
        have ha : h.Archivable id node := ⟨hu, hl, hn⟩
        cases hgrace : h.settings.gracePeriod.step? with
        | none =>
          refine .inl ⟨.scheduler graceTooLong, ?_⟩
          simp only [archiveBy, hu, ha.run_archive hr, hgrace]
        | some n =>
          refine .inr ⟨node, ha, ?_⟩
          cases hdue : now.add? n with
          | none =>
            have ho : h.settings.gracePeriod.Overruns now := ⟨n, hgrace, hdue⟩
            exact .inl ⟨ho, ha.archiveBy_of_overruns hr _ _ _ ho⟩
          | some due =>
            refine .inr ⟨n, due, rfl, hdue, ?_⟩
            rcases hs : schedule due jobs with ⟨_ | ⟨⟩, jobs'⟩ <;>
              simp only [archiveBy, hu, ha.run_archive hr, hgrace, hdue, hs,
                MemoryStore.commit_eq hr, committed]

/-- The endings of an archiving with the queue. One that takes place adds a purge that is due when
the grace period is over. -/
theorem archive_cases (scheduler : PurgeScheduler) (q : JobQueue) (u : Uuid) (id : NodeId k) :
    (∃ e, h.archive scheduler q now u id = (.error (.refused e), h, q)) ∨
    ∃ node, h.Archivable id node ∧
      (h.settings.gracePeriod.Overruns now ∧ h.archive scheduler q now u id =
          (.error (.aborted .pastLastInstant), { h with store := h.store.lock }, q) ∨
        ∃ due job, q.jobs.get? job.id = none ∧ job.Purges k.name id.toInt now due ∧
          due = now.after h.settings.gracePeriod.nanos ∧
          h.archive scheduler q now u id =
            (.ok (), h.committed (h.store.contents.withArchived id node) [id],
              { q with jobs := q.jobs.insert job.id job })) := by
  unfold archive
  rcases archiveBy_cases hr (fun due => scheduler.request k.name id.toInt due u now) q now id with
    hrefused | ⟨node, ha, haborted | ⟨n, due, hn, hdue, hends⟩⟩
  · exact .inl hrefused
  · exact .inr ⟨node, ha, .inl haborted⟩
  rcases scheduler.request_cases k.name id.toInt due u now q with
    ⟨e, hrequest⟩ | ⟨job, -, hfree, hjob, hrequest⟩ <;>
    rw [hrequest] at hends
  · exact .inl ⟨_, hends⟩
  · refine .inr ⟨node, ha, .inr ⟨due, job, hfree, hjob, ?_, hends⟩⟩
    rw [Duration.nanos_of_step? hn, Instant.eq_after_of_add? hdue]

end Hierarchy

end Lineage
