import Mathlib.Data.Finset.Card
import Lineage.Proofs.Archiving

/-!
# Claiming and running jobs

What a run of the executor does to a queue whose live jobs stand at their ids: it leaves every job
but one alone, and the one that it claimed was ready.

* `JobQueue.claim_cases`: what a claim takes.
* `Job.Attempted`: what becomes of a job whose attempt began when it was due.
* `JobQueue.Ends`: what an execution leaves in the queue.
* `Executor.runNext_ends`: a run executes a job that is ready.
* `Executor.runNext_cases`: the same for purge jobs.
* `JobQueue.ready`: the ids of the jobs that can be claimed. A run that succeeds removes one.
-/

namespace Lineage

/-! ## Claims -/

namespace JobQueue

variable {q : JobQueue} {now : Instant} {job : Job} {u : Uuid}

/-- Every live job stands at its id. -/
def Keyed (q : JobQueue) : Prop := ∀ u job, q.jobs.get? u = some job → job.id = u

theorem mem_foldl (rest : List Job) (best : Job) :
    rest.foldl (fun best j => if precedes j best then j else best) best ∈ best :: rest := by
  induction rest generalizing best with
  | nil => exact List.mem_cons_self
  | cons j rest ih =>
    rw [List.foldl_cons]
    rcases List.mem_cons.1 (ih (if precedes j best then j else best)) with h | h
    · rw [h]
      split <;> simp
    · exact List.mem_cons_of_mem _ (List.mem_cons_of_mem _ h)

theorem mem_of_earliest? {l : List Job} (h : earliest? l = some job) : job ∈ l := by
  cases l with
  | nil => cases h
  | cons j rest =>
    rw [← Option.some.inj h]
    exact mem_foldl rest j

theorem earliest?_eq_none {l : List Job} (h : earliest? l = none) : l = [] := by
  cases l with
  | nil => rfl
  | cons j rest => cases h

/-- A job that is not ready is not the one that is. -/
theorem ne_id_of_ready {other : Job} (hjob : q.jobs.get? u = some job)
    (hidle : isReady now job = false) (hother : q.jobs.get? other.id = some other)
    (hready : isReady now other = true) : u ≠ other.id := by
  rintro rfl
  obtain rfl := Option.some.inj (hjob.symm.trans hother)
  rw [hidle] at hready
  cases hready

/-- The job that is due first is a live one that is ready, if there is one, in whatever order the
live jobs are looked at. -/
theorem earliest?_cases (hq : q.Keyed) (now : Instant) {order : List Job}
    (horder : order.Perm q.jobs.values) :
    (earliest? (order.filter (isReady now)) = none ∧
        ∀ u job, q.jobs.get? u = some job → isReady now job = false) ∨
      ∃ job, earliest? (order.filter (isReady now)) = some job ∧
        q.jobs.get? job.id = some job ∧ isReady now job = true := by
  have hlive : ∀ job, job ∈ order ↔ ∃ u, q.jobs.get? u = some job := fun job =>
    horder.mem_iff.trans Table.mem_values
  cases he : earliest? (order.filter (isReady now)) with
  | none =>
    refine .inl ⟨rfl, fun u job hjob => ?_⟩
    have hnone := List.filter_eq_nil_iff.1 (earliest?_eq_none he) job ((hlive job).2 ⟨u, hjob⟩)
    simpa using hnone
  | some job =>
    obtain ⟨hmem, hready⟩ := List.mem_filter.1 (mem_of_earliest? he)
    obtain ⟨u, hu⟩ := (hlive job).1 hmem
    refine .inr ⟨job, rfl, ?_, hready⟩
    rw [hq u job hu]
    exact hu

/-- A claim starts a job that is ready, if there is one. -/
theorem claim_cases (hq : q.Keyed) (now : Instant) :
    (q.claim now = (none, q) ∧ ∀ u job, q.jobs.get? u = some job → isReady now job = false) ∨
      ∃ job, q.jobs.get? job.id = some job ∧ isReady now job = true ∧
        q.claim now = (some (job.start now),
          { q with jobs := q.jobs.insert job.id (job.start now) }) := by
  unfold claim
  rcases earliest?_cases hq now (.refl q.jobs.values) with ⟨he, hidle⟩ | ⟨job, he, hjob, hready⟩
  · rw [he]
    exact .inl ⟨rfl, hidle⟩
  · rw [he]
    exact .inr ⟨job, hjob, hready, rfl⟩

end JobQueue

/-! ## Attempts -/

/-- A job after an attempt that began when it was due: it is put off, if at all, until later. -/
structure Job.Attempted (now : Instant) (job job' : Job) : Prop where
  id : job'.id = job.id
  kind : job'.kind = job.kind
  payload : job'.payload = job.payload
  created : job'.created = job.created
  scheduled : job'.scheduled = job.scheduled ∨
    ∃ t, job'.scheduled = some t ∧ now ≤ t

/-- The instant at which a job that fails now is attempted again. A delay too long to be added to an
instant counts as none at all. -/
def Job.retryAt? (job : Job) (now : Instant) : Option Instant :=
  now.add? (((job.policy.delayAfter job.attempt).step?).getD 0)

/-- A job that is put off after its attempt failed. -/
def Job.postponed (job : Job) (error : String) (due now : Instant) : Job :=
  { job with status := .failed error job.attempt, updated := now, scheduled := some due }

/-- The count of a job that is started does not overflow if it can be told. -/
theorem Job.toNat_attempt_start {job : Job} (now : Instant)
    (h : job.attempt.toNat + 1 < UInt32.size) :
    (job.start now).attempt.toNat = job.attempt.toNat + 1 := by
  have hsum : (job.attempt + 1).toNat = (job.attempt.toNat + 1) % 2 ^ 32 := UInt32.toNat_add ..
  exact hsum.trans (Nat.mod_eq_of_lt h)

namespace JobQueue

/-- What a queue becomes in which a started job stands, once the handler has reported. -/
inductive Ends (now : Instant) (q : JobQueue) (job : Job) : JobResult → JobQueue → Prop
  | completed : Ends now q job .success { q with jobs := q.jobs.insert job.id (job.complete now) }
  | postponed (error : String) (due : Instant) : job.policy.allowsRetry job.attempt = true →
    job.retryAt? now = some due →
    Ends now q job (.failure error)
      { q with jobs := q.jobs.insert job.id (job.postponed error due now) }
  | givenUp (error : String) : job.policy.allowsRetry job.attempt = false →
    Ends now q job (.failure error) (q.deadLetter job error now)
  /-- The instant of the next attempt lies beyond the last one. -/
  | aborted (error : String) : job.policy.allowsRetry job.attempt = true →
    job.retryAt? now = none → Ends now q job (.failure error) q

variable {now : Instant} {q q' : JobQueue} {job job' : Job} {result : JobResult} {u : Uuid}

/-- The other live jobs stay. -/
theorem Ends.get?_of_ne (h : q.Ends now job result q') (hu : u ≠ job.id) :
    q'.jobs.get? u = q.jobs.get? u := by
  cases h with
  | completed => exact Table.get?_insert_of_ne hu ..
  | postponed => exact Table.get?_insert_of_ne hu ..
  | givenUp => exact Table.get?_erase_of_ne hu ..
  | aborted => rfl

/-- The job itself is completed, put off, given up or still started. -/
theorem Ends.attempted (h : q.Ends now job result q') (hjob : q.jobs.get? job.id = some job)
    (hjob' : q'.jobs.get? job.id = some job') : job.Attempted now job' := by
  cases h with
  | completed =>
    obtain rfl := Option.some.inj ((Table.get?_insert_self ..).symm.trans hjob')
    exact ⟨rfl, rfl, rfl, rfl, .inl rfl⟩
  | postponed error due _ hdue =>
    obtain rfl := Option.some.inj ((Table.get?_insert_self ..).symm.trans hjob')
    refine ⟨rfl, rfl, rfl, rfl, .inr ⟨due, rfl, ?_⟩⟩
    rw [Instant.eq_after_of_add? hdue]
    exact Instant.le_after
  | givenUp =>
    have hnone : (q.jobs.erase job.id).get? job.id = none := Table.get?_erase_self ..
    exact absurd (hnone.symm.trans hjob') (Option.some_ne_none _).symm
  | aborted =>
    obtain rfl := Option.some.inj (hjob.symm.trans hjob')
    exact ⟨rfl, rfl, rfl, rfl, .inl rfl⟩

theorem Ends.get?_of_success (h : q.Ends now job .success q') :
    q'.jobs.get? job.id = some (job.complete now) := by
  cases h with
  | completed => exact Table.get?_insert_self ..

end JobQueue

namespace Executor

variable {σ : Type} {x : Executor σ} {now : Instant} {job : Job} {q : JobQueue}

theorem recordSuccess_ends (hx : x.gate = {}) (h : q.jobs.get? job.id = some job) :
    q.Ends now job .success (x.recordSuccess now job q).2 := by
  have hcontains : q.jobs.contains (job.complete now).id = true := Table.contains_iff.2 ⟨job, h⟩
  simp only [recordSuccess, QueueGate.update, hx, JobQueue.update, hcontains, if_true]
  exact .completed

theorem recordFailure_ends (hx : x.gate = {}) (h : q.jobs.get? job.id = some job)
    (error : String) : q.Ends now job (.failure error) (x.recordFailure now job error q).2 := by
  have hcontains : q.jobs.contains job.id = true := Table.contains_iff.2 ⟨job, h⟩
  have hretry : now.add? (((job.policy.delayAfter job.attempt).step?).getD 0) = job.retryAt? now :=
    rfl
  simp only [recordFailure, Job.fail, hretry]
  cases hallowed : job.policy.allowsRetry job.attempt with
  | false =>
    simp only [Bool.false_eq_true, if_false, QueueGate.deadLetter, hx]
    exact .givenUp error hallowed
  | true =>
    cases hdue : job.retryAt? now with
    | none => exact .aborted error hallowed hdue
    | some due =>
      simp only [if_true, QueueGate.update, hx, JobQueue.update, hcontains]
      exact .postponed error due hallowed hdue

/-- An execution calls the handler once and records what it reported. -/
theorem execute_ends (hx : x.gate = {}) (h : q.jobs.get? job.id = some job) (now : Instant)
    (world : σ) :
    (x.execute now job q world).2.2 = (x.handle job world).2 ∧
      q.Ends now job (x.handle job world).1 (x.execute now job q world).2.1 := by
  rw [execute]
  rcases x.handle job world with ⟨_ | error, world'⟩
  · exact ⟨rfl, recordSuccess_ends hx h⟩
  · exact ⟨rfl, recordFailure_ends hx h error⟩

/-- After a run the queue and the state are as the execution of the claimed job left them. -/
theorem runNext_of_claim {q' : JobQueue} (world : σ)
    (h : x.gate.claim q now = .ok (some job, q')) :
    (x.runNext now q world).2 = (x.execute now job q' world).2 := by
  simp only [runNext, h]
  rcases x.execute now job q' world with ⟨_ | ⟨_, (_ | _) | _⟩, _, _⟩ <;> rfl

/-- A run executes a job that is ready, if there is one. -/
theorem runNext_ends (hx : x.gate = {}) (hq : q.Keyed) (now : Instant) (world : σ) :
    ((q.claim now).1 = none ∧ (x.runNext now q world).2 = (q, world) ∧
        ∀ u job, q.jobs.get? u = some job → JobQueue.isReady now job = false) ∨
      ∃ job, (q.claim now).1 = some (job.start now) ∧ q.jobs.get? job.id = some job ∧
        JobQueue.isReady now job = true ∧
        (x.runNext now q world).2.2 = (x.handle (job.start now) world).2 ∧
        JobQueue.Ends now { q with jobs := q.jobs.insert job.id (job.start now) } (job.start now)
          (x.handle (job.start now) world).1 (x.runNext now q world).2.1 := by
  have hclaim : x.gate.claim q now = .ok (q.claim now) := by rw [hx]; rfl
  rcases JobQueue.claim_cases hq now with ⟨hnone, hidle⟩ | ⟨job, hjob, hready, hsome⟩
  · refine .inl ⟨by rw [hnone], ?_, hidle⟩
    rw [runNext, hclaim, hnone]
  · have hstarted : (q.jobs.insert job.id (job.start now)).get? (job.start now).id =
        some (job.start now) := Table.get?_insert_self ..
    refine .inr ⟨job, by rw [hsome], hjob, hready, ?_⟩
    rw [runNext_of_claim world (hclaim.trans (congrArg _ hsome))]
    exact execute_ends (q := { q with jobs := q.jobs.insert job.id (job.start now) }) hx hstarted
      now world

end Executor

/-! ## Runs of purges -/

/-- The executor that purges one hierarchy. -/
def purger (k : Kind) : Executor (Hierarchy k) :=
  ({} : Executor (Hierarchy k)).registerPurge id fun h _ => h

namespace Executor

variable {k : Kind} {q : JobQueue} {now : Instant}

theorem handle_purger (job : Job) (hkind : job.kind = .purgeOf k.name) (h : Hierarchy k) :
    (purger k).handle job h = Hierarchy.runPurge job h := by
  have hhandler : (purger k).handler? job.kind =
      some (Hierarchy.purgeHandler id fun (h : Hierarchy k) _ => h) := by
    simp [handler?, registered?, purger, registerPurge, register, hkind, JobKind.purgeOf,
      JobKind.typeName]
  rw [handle, hhandler]
  rfl

/-- A run claims a purge that is ready and carries it out; every other job stays. -/
theorem runNext_cases (hq : q.Keyed) (now : Instant) (h : Hierarchy k)
    (hkind : ∀ u job, q.jobs.get? u = some job → job.kind = .purgeOf k.name) :
    let r := (purger k).runNext now q h
    (q.claim now).1 = none ∧ r.2 = (q, h) ∧
        (∀ u job, q.jobs.get? u = some job → JobQueue.isReady now job = false) ∨
      ∃ job, (q.claim now).1 = some (job.start now) ∧
        q.jobs.get? job.id = some job ∧ JobQueue.isReady now job = true ∧
        r.2.2 = (Hierarchy.runPurge (job.start now) h).2 ∧
        (∀ u, u ≠ job.id → r.2.1.jobs.get? u = q.jobs.get? u) ∧
        (∀ job', r.2.1.jobs.get? job.id = some job' → job.Attempted now job') ∧
        ((Hierarchy.runPurge (job.start now) h).1 = .success →
          r.2.1.jobs.get? job.id = some ((job.start now).complete now)) := by
  rcases runNext_ends (x := purger k) rfl hq now h with
    hidle | ⟨job, hclaim, hjob, hready, hworld, hends⟩
  · exact .inl hidle
  rw [handle_purger (job.start now) (hkind job.id job hjob)] at hworld hends
  refine .inr ⟨job, hclaim, hjob, hready, hworld, fun u hu => ?_, fun job' hjob' => ?_, ?_⟩
  · exact (hends.get?_of_ne hu).trans (Table.get?_insert_of_ne hu ..)
  · have ha := hends.attempted (Table.get?_insert_self ..) hjob'
    exact ⟨ha.id, ha.kind, ha.payload, ha.created, ha.scheduled⟩
  · intro hsuccess
    rw [hsuccess] at hends
    exact hends.get?_of_success

end Executor

/-! ## Jobs that can be claimed -/

namespace JobQueue

variable {q q' : JobQueue} {now : Instant} {job : Job}

/-- The ids of the jobs that can be claimed. -/
def ready (q : JobQueue) (now : Instant) : Finset Uuid :=
  q.jobs.keys.toFinset.filter fun u => (q.jobs.get? u).any (isReady now) = true

theorem mem_ready {u : Uuid} :
    u ∈ q.ready now ↔ ∃ job, q.jobs.get? u = some job ∧ isReady now job = true := by
  rw [ready, Finset.mem_filter, List.mem_toFinset, Table.mem_keys]
  constructor
  · rintro ⟨⟨job, hjob⟩, hany⟩
    rw [hjob] at hany
    exact ⟨job, hjob, hany⟩
  · rintro ⟨job, hjob, hready⟩
    exact ⟨⟨job, hjob⟩, by rw [hjob]; exact hready⟩

/-- A job that was ready and is completed leaves one ready job less. -/
theorem card_ready_lt (hjob : q.jobs.get? job.id = some job) (hready : isReady now job = true)
    (hother : ∀ u, u ≠ job.id → q'.jobs.get? u = q.jobs.get? u)
    (hdone : q'.jobs.get? job.id = some ((job.start now).complete now)) :
    (q'.ready now).card < (q.ready now).card := by
  have hmem : job.id ∈ q.ready now := mem_ready.2 ⟨job, hjob, hready⟩
  refine lt_of_le_of_lt (Finset.card_le_card ?_) (Finset.card_erase_lt_of_mem hmem)
  intro u hu
  obtain ⟨j, hj, hr⟩ := mem_ready.1 hu
  have hne : u ≠ job.id := by
    rintro rfl
    obtain rfl := Option.some.inj (hdone.symm.trans hj)
    cases hr
  exact Finset.mem_erase.2 ⟨hne, mem_ready.2 ⟨j, (hother u hne).symm.trans hj, hr⟩⟩

end JobQueue

end Lineage
