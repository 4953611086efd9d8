import Lineage.Proofs.Archiving
import Lineage.Proofs.Queue

/-!
# The grace period of archived nodes

An archiving puts a purge into the queue that is due when the grace period is over. No purge is ever
taken back: it finds its node by id, in whatever archiving the node then is. So a purge keeps the
grace period of the archiving that it comes from, which need not be the latest one of its node.

* `Timeline`, `Occurrence`: a hierarchy with its queue under a clock, and what may happen next.
* `Timeline.Promised`: what every job in the queue keeps to; every occurrence keeps this
  (`Timeline.Orderly.step`).
* `Timeline.Hasty`: a purge of a node waits that is due before the grace period since its latest
  archiving is over.
* `Timeline.run_grace`: a node is removed too early exactly from where it is hasty.
-/

namespace Lineage

variable {k : Kind}

/-! ## Purges -/

namespace Work

variable {s : MemoryStore k} (hs : s.refusal = none)

include hs

/-- A purge removes one record from the archive, if it is there, and no other. -/
theorem purge_eq_ok (id : NodeId k) (t : Contents k) : ∃ touched t',
    purge id s t = .ok (touched, t') ∧ t'.archived = t.archived.erase id ∧
      (touched = none → t' = t) := by
  unfold purge
  simp only [bind_apply _ _ s t, ask_apply hs, Contents.perform, settled_ok, ok_bind]
  cases hn : t.archived.get? id with
  | none => exact ⟨none, t, rfl, (Table.erase_eq_self hn).symm, fun _ => rfl⟩
  | some node =>
    unfold detach withAncestors
    simp only [Option.isNone_some, Bool.false_eq_true, if_false, bind_apply, ask_apply hs,
      Contents.perform, settled_ok, ok_bind, prune_eq hs, pure_apply]
    exact ⟨_, _, rfl, rfl, fun h => by cases h⟩

end Work

namespace Hierarchy

variable {h : Hierarchy k} (hr : h.store.refusal = none)

include hr

/-- A purge of a node that nobody uses succeeds on a store that is not locked, and removes the
node from the archive. -/
theorem purge_of_unused (hl : h.store.locked = false) {id : NodeId k}
    (hc : h.consumers id = .ok []) :
    ∃ outcome h', h.purge id = (.ok outcome, h') ∧ h'.store.locked = false ∧
      h'.store.contents.archived = h.store.contents.archived.erase id := by
  obtain ⟨touched, t, hw, ht, hnone⟩ := Work.purge_eq_ok hr id h.store.contents
  simp only [purge, hc, change, MemoryStore.run_unlocked hr hl, Work.bind_apply, hw, Work.ok_bind]
  cases touched with
  | none => exact ⟨_, h, rfl, hl, by rw [← ht, hnone rfl]⟩
  | some touched =>
    simp only [Work.pure_apply, MemoryStore.commit_eq hr]
    exact ⟨_, _, rfl, by rw [invalidate_store]; exact hl, by rw [invalidate_store]; exact ht⟩

/-- A purge leaves every other node in the archive. -/
theorem purge_archived (id : NodeId k) :
    (h.purge id).2.store.contents.archived = h.store.contents.archived ∨
      (h.purge id).2.store.contents.archived = h.store.contents.archived.erase id := by
  rcases hc : h.consumers id with e | _ | ⟨code, codes⟩
  · exact .inl (by rw [purge, hc])
  · cases hl : h.store.locked with
    | true => exact .inl (by simp only [purge, hc, change, MemoryStore.run_locked hr hl])
    | false =>
      obtain ⟨outcome, h', hpurge, -, ht⟩ := purge_of_unused hr hl hc
      exact .inr (by rw [hpurge, ht])
  · exact .inl (by rw [purge, hc])

omit hr in
theorem runPurge_alike (job : Job) (h : Hierarchy k) : h.Alike (runPurge job h).2 := by
  cases hid : purgeTarget? (k := k) job.payload with
  | none => simp only [runPurge, hid]; exact ⟨rfl, rfl⟩
  | some id => rw [runPurge_eq hid]; exact purge_alike h id

end Hierarchy

/-! ## Occurrences -/

/-- A hierarchy, the queue of its purges, and the clock. -/
structure Timeline (k : Kind) where
  hierarchy : Hierarchy k
  queue : JobQueue := {}
  now : Instant
  /-- The archivings that took place and their instants, the latest first. -/
  archivings : List (NodeId k × Instant) := []

/-- What happens next. -/
inductive Occurrence (k : Kind)
  /-- An operation; an archiving takes the queue and the clock of the timeline. -/
  | serve (env : Surroundings k) (op : Operation k)
  /-- The clock moves on to an instant, unless that is over. -/
  | wait (t : Instant)
  /-- A run of the executor. -/
  | runNext (env : Surroundings k)

namespace Timeline

/-- What is after an occurrence. -/
def step (w : Timeline k) : Occurrence k → Timeline k
  | .serve env (.archive id) =>
    let r := (w.hierarchy.within env).archive env.scheduler w.queue w.now env.job id
    { w with
      hierarchy := r.2.1
      queue := r.2.2
      archivings := if r.1.isOk then (id, w.now) :: w.archivings else w.archivings }
  | .serve env op => { w with hierarchy := (w.hierarchy.serve env op).2 }
  | .wait t => { w with now := max w.now t }
  | .runNext env =>
    let r := (purger k).runNext w.now w.queue (w.hierarchy.within env)
    { w with queue := r.2.1, hierarchy := r.2.2 }

/-- What is after some occurrences. -/
def run (w : Timeline k) (occurrences : List (Occurrence k)) : Timeline k :=
  occurrences.foldl step w

variable {w : Timeline k} {id : NodeId k} {job : Job}

/-- The grace period in nanoseconds. -/
def grace (w : Timeline k) : Nat := w.hierarchy.settings.gracePeriod.nanos

/-- Whether a node is archived. -/
def Archived (w : Timeline k) (id : NodeId k) : Prop :=
  ∃ node, w.hierarchy.store.contents.archived.get? id = some node

/-- The instant at which a node was archived last. -/
def latest? (w : Timeline k) (id : NodeId k) : Option Instant :=
  (w.archivings.find? fun a => a.1 == id).map (·.2)

/-- Whether the grace period after an instant is over. -/
def Over (w : Timeline k) (t : Instant) : Prop := t.after w.grace ≤ w.now

/-- Whether a run of the executor removes an archived node. -/
def Removes (w : Timeline k) (env : Surroundings k) (id : NodeId k) : Prop :=
  w.Archived id ∧ ¬ (w.step (.runNext env)).Archived id

/-- A purge of a node waits that is due before the grace period since the latest archiving of the
node is over. -/
def Hasty (w : Timeline k) (id : NodeId k) : Prop :=
  ∃ t, w.latest? id = some t ∧ ¬ w.Over t ∧
    ∃ u job due, w.queue.jobs.get? u = some job ∧ job.status.isWaiting = true ∧
      Hierarchy.purgeTarget? job.payload = some id ∧ job.scheduled = some due ∧
      due < t.after w.grace

/-! ## What holds of every job -/

/-- A purge job that comes from an archiving and is not due within the grace period after it. -/
structure Promised (grace : Nat) (archivings : List (NodeId k × Instant)) (job : Job) : Prop where
  kind : job.kind = .purgeOf k.name
  target : ∃ id, Hierarchy.purgeTarget? job.payload = some id ∧ (id, job.created) ∈ archivings
  due : ∃ t, job.scheduled = some t ∧ job.created.after grace ≤ t

/-- The store refuses nothing, and every job stands at its id and keeps the grace period of its
archiving. -/
structure Orderly (w : Timeline k) : Prop where
  refusal : w.hierarchy.store.refusal = none
  job : ∀ u job, w.queue.jobs.get? u = some job → job.id = u ∧ Promised w.grace w.archivings job

theorem run_cons (w : Timeline k) (o : Occurrence k) (rest : List (Occurrence k)) :
    w.run (o :: rest) = (w.step o).run rest := rfl

theorem exists_latest? {t : Instant} (h : (id, t) ∈ w.archivings) :
    ∃ t', w.latest? id = some t' := by
  rw [← Option.isSome_iff_exists, latest?, Option.isSome_map, List.find?_isSome]
  exact ⟨_, h, by simp⟩

theorem Promised.mono {grace : Nat} {l l' : List (NodeId k × Instant)} (h : Promised grace l job)
    (hsub : l ⊆ l') : Promised grace l' job :=
  ⟨h.kind, h.target.imp fun _ ht => ⟨ht.1, hsub ht.2⟩, h.due⟩

/-- A job that was due keeps its promise through an attempt: it is put off, if at all, until later
than the attempt. -/
theorem Promised.attempted {grace : Nat} {l : List (NodeId k × Instant)} {now : Instant}
    {job' : Job} (h : Promised grace l job) (hdue : job.isDue now = true)
    (ha : job.Attempted now job') : Promised grace l job' := by
  refine ⟨ha.kind.trans h.kind, ?_, ?_⟩
  · rw [ha.payload, ha.created]
    exact h.target
  obtain ⟨t, ht, hle⟩ := h.due
  rcases ha.scheduled with he | ⟨t', ht', hnow⟩
  · exact ⟨t, he.trans ht, by rw [ha.created]; exact hle⟩
  · rw [Job.isDue, ht] at hdue
    have htn : t ≤ now := of_decide_eq_true hdue
    exact ⟨t', ht', by rw [ha.created]; exact hle.trans (htn.trans hnow)⟩

end Timeline

/-- A purge that is due when the grace period after its archiving is over keeps its promise. -/
theorem Timeline.Promised.of_purges {job : Job} {id : NodeId k} {now due : Instant} {grace : Nat}
    {l : List (NodeId k × Instant)} (hjob : job.Purges k.name id.toInt now due)
    (hdue : due = now.after grace) (hmem : (id, now) ∈ l) : Promised grace l job where
  kind := hjob.kind
  target := ⟨id, by rw [hjob.payload, Hierarchy.purgeTarget?_payload], by rwa [hjob.created]⟩
  due := ⟨due, hjob.scheduled, by rw [hjob.created, hdue]⟩

namespace Timeline

variable {w : Timeline k} {id : NodeId k} {job : Job}

theorem step_serve {env : Surroundings k} {op : Operation k} (hop : ∀ id, op ≠ .archive id) :
    w.step (.serve env op) = { w with hierarchy := (w.hierarchy.serve env op).2 } := by
  cases op with
  | archive id => exact absurd rfl (hop id)
  | _ => rfl

theorem Orderly.keyed (hw : w.Orderly) : w.queue.Keyed := fun u job h => (hw.job u job h).1

theorem Orderly.kind (hw : w.Orderly) (u : Uuid) (job : Job)
    (h : w.queue.jobs.get? u = some job) : job.kind = .purgeOf k.name :=
  (hw.job u job h).2.kind

theorem Orderly.next {w' : Timeline k} (hw : w.Orderly) (ha : w.hierarchy.Alike w'.hierarchy)
    (hjob : ∀ u job, w'.queue.jobs.get? u = some job →
      job.id = u ∧ Promised w.grace w'.archivings job) : w'.Orderly ∧ w'.grace = w.grace := by
  have hgrace : w'.grace = w.grace := by rw [grace, ha.settings, grace]
  exact ⟨⟨ha.refusal.trans hw.refusal, fun u job h => hgrace ▸ hjob u job h⟩, hgrace⟩

theorem Orderly.step_archive (hw : w.Orderly) (env : Surroundings k) (id : NodeId k) :
    (w.step (.serve env (.archive id))).Orderly ∧
      (w.step (.serve env (.archive id))).grace = w.grace := by
  have hin : w.hierarchy.Alike (w.hierarchy.within env) := ⟨rfl, rfl⟩
  refine hw.next (hin.trans (Hierarchy.archiveBy_alike ..)) fun u j hj => ?_
  simp only [Timeline.step] at hj ⊢
  rcases Hierarchy.archive_cases (h := w.hierarchy.within env) hw.refusal w.now env.scheduler
      w.queue env.job id with
    ⟨e, hr⟩ | ⟨node, -, ⟨-, hr⟩ | ⟨due, job, -, hjob, hdue, hr⟩⟩ <;>
    rw [hr] at hj ⊢
  · exact hw.job u j hj
  · exact hw.job u j hj
  · dsimp only at hj
    rw [Table.get?_insert] at hj
    split at hj
    case isTrue hu =>
      obtain rfl := Option.some.inj hj
      exact ⟨hu.symm, .of_purges hjob hdue List.mem_cons_self⟩
    case isFalse =>
      obtain ⟨hid, hjob⟩ := hw.job u j hj
      exact ⟨hid, hjob.mono (List.subset_cons_self ..)⟩

theorem Orderly.step_runNext (hw : w.Orderly) (env : Surroundings k) :
    (w.step (.runNext env)).Orderly ∧ (w.step (.runNext env)).grace = w.grace := by
  have hin : w.hierarchy.Alike (w.hierarchy.within env) := ⟨rfl, rfl⟩
  rcases Executor.runNext_cases hw.keyed w.now (w.hierarchy.within env) hw.kind with
    ⟨-, heq, -⟩ | ⟨job, -, hjob, hready, hh, hother, hattempted, -⟩
  · have hstep : w.step (.runNext env) = { w with hierarchy := w.hierarchy.within env } := by
      rw [Timeline.step, heq]
    rw [hstep]
    exact hw.next hin hw.job
  · refine hw.next (hin.trans ?_) fun u j hj => ?_
    · simp only [Timeline.step, hh]
      exact Hierarchy.runPurge_alike ..
    · by_cases hu : u = job.id
      · subst hu
        have ha := hattempted j hj
        have hdue : job.isDue w.now = true := (Bool.and_eq_true_iff.1 hready).2
        exact ⟨ha.id, (hw.job _ job hjob).2.attempted hdue ha⟩
      · exact hw.job u j ((hother u hu).symm.trans hj)

/-- Every occurrence keeps the promises of the jobs, and the grace period. -/
theorem Orderly.step (hw : w.Orderly) (o : Occurrence k) :
    (w.step o).Orderly ∧ (w.step o).grace = w.grace := by
  cases o with
  | serve env op =>
    by_cases hop : ∃ id, op = .archive id
    · obtain ⟨id, rfl⟩ := hop
      exact hw.step_archive env id
    · rw [step_serve fun id he => hop ⟨id, he⟩]
      exact hw.next (w.hierarchy.serve_alike env op) hw.job
  | wait t => exact hw.next ⟨rfl, rfl⟩ hw.job
  | runNext env => exact hw.step_runNext env

theorem Orderly.run (hw : w.Orderly) (occurrences : List (Occurrence k)) :
    (w.run occurrences).Orderly ∧ (w.run occurrences).grace = w.grace := by
  induction occurrences generalizing w with
  | nil => exact ⟨hw, rfl⟩
  | cons o rest ih =>
    obtain ⟨hstep, hgrace⟩ := hw.step o
    obtain ⟨hrun, hsame⟩ := ih hstep
    exact ⟨hrun, hsame.trans hgrace⟩

/-! ## Removals -/

/-- A run that removes a node from the archive carries out a purge of it that is due. -/
theorem Orderly.exists_job_of_removes (hw : w.Orderly) {env : Surroundings k}
    (hremoves : w.Removes env id) : ∃ u job due, w.queue.jobs.get? u = some job ∧
      job.status.isWaiting = true ∧ Hierarchy.purgeTarget? job.payload = some id ∧
      (id, job.created) ∈ w.archivings ∧ job.scheduled = some due ∧
      job.created.after w.grace ≤ due ∧ due ≤ w.now := by
  obtain ⟨harchived, hgone⟩ := hremoves
  rcases Executor.runNext_cases hw.keyed w.now (w.hierarchy.within env) hw.kind with
    ⟨-, heq, -⟩ | ⟨job, -, hjob, hready, hh, -⟩
  · refine absurd ?_ hgone
    rw [Archived, Timeline.step, heq]
    exact harchived
  obtain ⟨hwaiting, hdue⟩ := Bool.and_eq_true_iff.1 hready
  obtain ⟨-, -, ⟨target, htarget, hmem⟩, due, hscheduled, hlater⟩ := hw.job _ job hjob
  have hafter : (w.step (.runNext env)).hierarchy =
      ((w.hierarchy.within env).purge target).2 := by
    rw [Timeline.step, hh]
    exact Hierarchy.runPurge_eq htarget _
  have hid : id = target := by
    by_contra hne
    refine hgone ?_
    rw [Archived, hafter]
    rcases Hierarchy.purge_archived (h := w.hierarchy.within env) hw.refusal target with he | he <;>
      rw [he]
    · exact harchived
    · rw [Table.get?_erase_of_ne hne]
      exact harchived
  subst hid
  rw [Job.isDue, hscheduled] at hdue
  exact ⟨_, job, due, hjob, hwaiting, htarget, hmem, hscheduled, hlater, of_decide_eq_true hdue⟩

/-- A run of the executor while nothing is in use removes the node of the purge that it claims. -/
theorem Orderly.step_calm (hw : w.Orderly) (hl : w.hierarchy.store.locked = false)
    (hready : ∃ u job, w.queue.jobs.get? u = some job ∧ JobQueue.isReady w.now job = true) :
    let w' := w.step (.runNext .calm)
    ∃ job target, w.queue.jobs.get? job.id = some job ∧
      Hierarchy.purgeTarget? job.payload = some target ∧
      (∀ id, w'.Archived id ↔ id ≠ target ∧ w.Archived id) ∧
      w'.hierarchy.store.locked = false ∧
      (∀ u, u ≠ job.id → w'.queue.jobs.get? u = w.queue.jobs.get? u) ∧
      (w'.queue.ready w.now).card < (w.queue.ready w.now).card := by
  rcases Executor.runNext_cases hw.keyed w.now (w.hierarchy.within .calm) hw.kind with
    ⟨-, -, hidle⟩ | ⟨job, -, hjob, hclaimed, hh, hother, -, hdone⟩
  · obtain ⟨u, job, hjob, hready⟩ := hready
    rw [hidle u job hjob] at hready
    cases hready
  obtain ⟨-, -, ⟨target, htarget, -⟩, -⟩ := hw.job _ job hjob
  have hunused : (w.hierarchy.within .calm).consumers target = .ok [] := rfl
  obtain ⟨outcome, h, hpurge, hlocked, harchived⟩ :=
    Hierarchy.purge_of_unused (h := w.hierarchy.within .calm) hw.refusal hl hunused
  have hsuccess : Hierarchy.runPurge (job.start w.now) (w.hierarchy.within .calm) =
      (.success, h) := by
    have htarget : Hierarchy.purgeTarget? (job.start w.now).payload = some target := htarget
    simp only [Hierarchy.runPurge, htarget, hpurge]
  rw [hsuccess] at hh hdone
  refine ⟨job, target, hjob, htarget, fun id => ?_, ?_, hother, ?_⟩
  · simp only [Archived, Timeline.step, hh, harchived, Table.get?_erase]
    by_cases hid : id = target
    · simp [hid]
    · rw [if_neg hid, and_iff_right hid]
      rfl
  · simp only [Timeline.step, hh]
    exact hlocked
  · exact JobQueue.card_ready_lt hjob hclaimed hother (hdone rfl)

/-- Some runs of the executor while nothing is in use. -/
def calmRuns (k : Kind) (m : Nat) : List (Occurrence k) := List.replicate m (.runNext .calm)

theorem run_calmRuns (w : Timeline k) (m : Nat) :
    (w.run (calmRuns k m)).now = w.now ∧ (w.run (calmRuns k m)).archivings = w.archivings := by
  induction m generalizing w with
  | zero => exact ⟨rfl, rfl⟩
  | succ m ih => exact ih (w.step (.runNext .calm))

/-- A purge that is due is carried out before long: every other one is claimed at most once before
it. -/
theorem Orderly.exists_removes (hw : w.Orderly) (hl : w.hierarchy.store.locked = false)
    (harchived : w.Archived id) {u : Uuid} (hjob : w.queue.jobs.get? u = some job)
    (hready : JobQueue.isReady w.now job = true)
    (hid : Hierarchy.purgeTarget? job.payload = some id) :
    ∃ m, (w.run (calmRuns k m)).Removes .calm id := by
  -- The number of ready jobs falls with every run.
  induction hn : (w.queue.ready w.now).card using Nat.strong_induction_on generalizing w with
  | _ n ih =>
    subst hn
    obtain ⟨claimed, target, hclaimed, htarget, hafter, hunlocked, hother, hlt⟩ :=
      hw.step_calm hl ⟨u, job, hjob, hready⟩
    by_cases he : id = target
    · exact ⟨0, harchived, fun h => ((hafter id).1 h).1 he⟩
    have hu : u ≠ claimed.id := by
      rintro rfl
      obtain rfl := Option.some.inj (hclaimed.symm.trans hjob)
      exact he (Option.some.inj (hid.symm.trans htarget))
    obtain ⟨m, hm⟩ := ih _ hlt (hw.step _).1 hunlocked ((hafter id).2 ⟨he, harchived⟩)
      ((hother u hu).trans hjob) hready rfl
    exact ⟨m + 1, hm⟩

/-- From where a node is hasty it may be removed while the grace period since its latest archiving
is not over: when its purge comes due and the executor gets to it. -/
theorem Orderly.removes_of_hasty (hw : w.Orderly) (hl : w.hierarchy.store.locked = false)
    (harchived : w.Archived id) (hhasty : w.Hasty id) :
    ∃ t₀ m, let w' := w.run (.wait t₀ :: calmRuns k m)
      w'.Removes .calm id ∧ ∃ t, w'.latest? id = some t ∧ ¬ w'.Over t := by
  obtain ⟨t, hlatest, hover, u, job, due, hjob, hwaiting, hid, hscheduled, hearly⟩ := hhasty
  have hready : JobQueue.isReady (w.step (.wait due)).now job = true := by
    refine Bool.and_eq_true_iff.2 ⟨hwaiting, ?_⟩
    rw [Job.isDue, hscheduled]
    exact decide_eq_true (le_max_right w.now due)
  obtain ⟨m, hm⟩ := (hw.step (.wait due)).1.exists_removes hl harchived hjob hready hid
  have hgrace := ((hw.step (.wait due)).1.run (calmRuns k m)).2
  obtain ⟨hnow, harchivings⟩ := (w.step (.wait due)).run_calmRuns m
  refine ⟨due, m, hm, t, ?_, ?_⟩
  · rw [run_cons, latest?, harchivings]
    exact hlatest
  · rw [run_cons, Over, hgrace, hnow]
    have hbefore : max w.now due < t.after w.grace := max_lt (not_le.1 hover) hearly
    exact hbefore.not_ge

/-- The state before any occurrence. -/
def start (h : Hierarchy k) (now : Instant) : Timeline k := { hierarchy := h, now }

theorem start_orderly {h : Hierarchy k} (hr : h.store.refusal = none) (now : Instant) :
    (start h now).Orderly :=
  ⟨hr, fun _ _ h => by cases h⟩

/-- What a run of the executor removes was archived a grace period ago at the least. That archiving
is the latest one of the node unless the node is hasty; a node that is hasty may be removed before
the grace period since its latest archiving is over. -/
theorem run_grace (h : Hierarchy k) (hr : h.store.refusal = none) (now : Instant)
    (occurrences : List (Occurrence k)) (id : NodeId k) :
    let w := (start h now).run occurrences
    w.grace = h.settings.gracePeriod.nanos ∧
      (∀ env, w.Removes env id → (∃ t, (id, t) ∈ w.archivings ∧ w.Over t) ∧
        (¬ w.Hasty id → ∃ t, w.latest? id = some t ∧ w.Over t)) ∧
      (w.hierarchy.store.locked = false → w.Archived id → w.Hasty id →
        ∃ t₀ m, let w' := w.run (.wait t₀ :: calmRuns k m)
          w'.Removes .calm id ∧ ∃ t, w'.latest? id = some t ∧ ¬ w'.Over t) := by
  obtain ⟨hw, hgrace⟩ := (start_orderly hr now).run occurrences
  refine ⟨hgrace, fun env hremoves => ?_, hw.removes_of_hasty⟩
  obtain ⟨u, job, due, hjob, hwaiting, hid, hmem, hscheduled, hlater, hdue⟩ :=
    hw.exists_job_of_removes hremoves
  refine ⟨⟨job.created, hmem, hlater.trans hdue⟩, fun hhasty => ?_⟩
  obtain ⟨t, ht⟩ := exists_latest? hmem
  refine ⟨t, ht, ?_⟩
  by_contra hover
  refine hhasty ⟨t, ht, hover, u, job, due, hjob, hwaiting, hid, hscheduled, ?_⟩
  exact hdue.trans_lt (not_le.1 hover)

/-- A node is archived, recovered and archived again a second before its first purge is due. -/
def rearchived : Timeline ⟨"tag"⟩ :=
  (start { cache := .memory {} } ⟨0, false⟩).run [
    .serve .calm (.add { id := some ⟨1⟩, code := "a", name := "a" }),
    .serve .calm (.archive ⟨1⟩), .wait ⟨1295999 * nanosPerSecond, false⟩,
    .serve .calm (.recover ⟨1⟩), .serve { Surroundings.calm with job := .ofNat 1 } (.archive ⟨1⟩),
    .wait ⟨1296000 * nanosPerSecond, false⟩]

theorem rearchived_removes : rearchived.Removes .calm ⟨1⟩ := by
  have hbefore : (rearchived.hierarchy.store.contents.archived.get? ⟨1⟩).isSome = true := by
    decide +kernel
  have hafter : ((rearchived.step (.runNext .calm)).hierarchy.store.contents.archived.get?
      ⟨1⟩).isSome = false := by
    decide +kernel
  refine ⟨Option.isSome_iff_exists.1 hbefore, fun h => ?_⟩
  rw [Archived, ← Option.isSome_iff_exists, hafter] at h
  cases h

/-- The first purge removes the node when the grace period since the first archiving is over. -/
theorem run_grace_rearchived : ∃ t, (⟨1⟩, t) ∈ rearchived.archivings ∧ rearchived.Over t :=
  ((run_grace { cache := .memory {} } rfl ⟨0, false⟩ _ ⟨1⟩).2.1 .calm rearchived_removes).1

/-- That is a second after the latest one. -/
theorem rearchived_early : rearchived.Removes .calm ⟨1⟩ ∧
    ∃ t, rearchived.latest? ⟨1⟩ = some t ∧ rearchived.now.nanos = t.nanos + nanosPerSecond ∧
      ¬ rearchived.Over t := by
  have hlatest : rearchived.latest? ⟨1⟩ = some ⟨1295999 * nanosPerSecond, false⟩ := by
    decide +kernel
  refine ⟨rearchived_removes, _, hlatest, by decide +kernel, ?_⟩
  unfold Over
  decide +kernel

end Timeline

end Lineage
