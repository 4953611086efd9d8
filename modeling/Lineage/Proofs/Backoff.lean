import Lineage.Proofs.Custody

/-!
# Waiting for the next attempt

After a failed attempt a job waits as long as its policy says, and is not claimed before. The delay
doubles from attempt to attempt up to the longest one, but stops doubling with the 32nd. It is kept
if it ends at an instant; one that leads past the last instant cuts the failure off, and one too
long to be added to an instant counts as none.

* `RetryPolicy.doubled`: the delay that never stops doubling.
* `RetryPolicy.delayAfter_doubled`: where the delay of a policy agrees with it.
* `JobQueue.Withholds`: a queue does not give a job away before an instant, whatever is asked of it
  about other jobs.
* `Job.Postpones`: a failure puts a job off until an instant.
* `Job.fail_postpones`: it does so for the whole delay iff the delay ends at an instant.
-/

namespace Lineage

/-! ## Delays -/

namespace Duration

variable {d e : Duration} {n : Nat}

theorem nanos_min : (d.min e).nanos = Nat.min d.nanos e.nanos := by
  rw [Duration.min]
  split
  case isTrue h => exact (Nat.min_eq_left h).symm
  case isFalse h => exact (Nat.min_eq_right (Nat.le_of_not_le h)).symm

theorem nanos_of_times? (h : d.times? n = some e) : e.nanos = d.nanos * n := by
  unfold times? ofNanos? at h
  split at h
  · rw [← Option.some.inj h]
  · cases h

/-- A multiple that is no duration is longer than every duration. -/
theorem le_of_times?_eq_none (h : d.times? n = none) (e : Duration) : e.nanos ≤ d.nanos * n := by
  unfold times? ofNanos? at h
  split at h
  · cases h
  · exact Nat.le_of_lt (Nat.lt_of_lt_of_le e.bounded (Nat.le_of_not_lt ‹_›))

end Duration

namespace RetryPolicy

variable {p : RetryPolicy}

/-- The nanoseconds of a delay that doubles from attempt to attempt, up to the longest one. -/
def doubled (p : RetryPolicy) (attempt : Nat) : Nat :=
  min (p.baseDelay.nanos * 2 ^ (attempt - 1)) p.maxDelay.nanos

theorem doubled_mono {m n : Nat} (h : m ≤ n) : p.doubled m ≤ p.doubled n := by
  have hpow : 2 ^ (m - 1) ≤ 2 ^ (n - 1) := Nat.pow_le_pow_right (by decide) (by omega)
  exact min_le_min_right _ (Nat.mul_le_mul_left _ hpow)

theorem doubled_le (n : Nat) : p.doubled n ≤ p.maxDelay.nanos := Nat.min_le_right ..

/-- A later attempt waits no longer than an earlier one iff there is nothing to double, or the
longest delay is reached. -/
theorem doubled_eq_iff {m n : Nat} (hm : 1 ≤ m) (h : m < n) : p.doubled m = p.doubled n ↔
    p.baseDelay.nanos = 0 ∨ p.maxDelay.nanos ≤ p.baseDelay.nanos * 2 ^ (m - 1) := by
  have hpow : 2 ^ (m - 1) < 2 ^ (n - 1) := Nat.pow_lt_pow_right (by decide) (by omega)
  rcases Nat.eq_zero_or_pos p.baseDelay.nanos with hzero | hpos
  · simp [doubled, hzero]
  · have hlt := Nat.mul_lt_mul_of_pos_left hpow hpos
    unfold doubled
    omega

section Exponential

variable (hp : p.backoff = .exponential)

include hp

/-- From the 32nd attempt on the delay is that of the 32nd. -/
theorem nanos_delayAfter {n : UInt32} (hn : n ≠ 0) :
    (p.delayAfter n).nanos = p.doubled (min n.toNat 32) := by
  have hpos : n.toNat ≠ 0 := fun h => hn (UInt32.toNat_inj.1 h)
  have hshift : 1 <<< min (n.toNat - 1) 31 = 2 ^ (min n.toNat 32 - 1) := by
    rw [Nat.one_shiftLeft]
    congr 1
    omega
  rw [delayAfter, if_neg hn, hp]
  simp only [hshift, doubled]
  cases htimes : p.baseDelay.times? (2 ^ (min n.toNat 32 - 1)) with
  | some d => rw [Duration.nanos_min, Duration.nanos_of_times? htimes]
  | none => exact (Nat.min_eq_right (Duration.le_of_times?_eq_none htimes _)).symm

theorem nanos_delayAfter_le (n : UInt32) : (p.delayAfter n).nanos ≤ p.maxDelay.nanos := by
  by_cases hn : n = 0
  · rw [hn]
    exact Nat.zero_le _
  · rw [nanos_delayAfter hp hn]
    exact doubled_le _

theorem nanos_delayAfter_mono {m n : UInt32} (h : m ≤ n) :
    (p.delayAfter m).nanos ≤ (p.delayAfter n).nanos := by
  have hle := UInt32.le_iff_toNat_le.1 h
  by_cases hm : m = 0
  · rw [hm]
    exact Nat.zero_le _
  · have hn : n ≠ 0 := by
      rintro rfl
      exact hm (UInt32.toNat_inj.1 (Nat.le_zero.1 hle))
    rw [nanos_delayAfter hp hm, nanos_delayAfter hp hn]
    exact doubled_mono (by omega)

end Exponential

/-- The delay of a policy that doubles it is that of the attempt, or of the 32nd if that is earlier.
So it is the delay that never stops doubling iff the attempt is no later, or the 32nd attempt makes
no difference to the attempts after it. In any case it does not decrease, and stays within the
longest delay. -/
theorem delayAfter_doubled (hp : p.backoff = .exponential) :
    (∀ n : UInt32, 1 ≤ n → (p.delayAfter n).nanos = p.doubled (min n.toNat 32)) ∧
      (∀ n : UInt32, 1 ≤ n → ((p.delayAfter n).nanos = p.doubled n.toNat ↔
        n.toNat ≤ 32 ∨ p.baseDelay.nanos = 0 ∨
          p.maxDelay.nanos ≤ p.baseDelay.nanos * 2 ^ 31)) ∧
      (∀ m n : UInt32, m ≤ n → (p.delayAfter m).nanos ≤ (p.delayAfter n).nanos) ∧
      ∀ n : UInt32, (p.delayAfter n).nanos ≤ p.maxDelay.nanos := by
  have hdelay : ∀ n : UInt32, 1 ≤ n → (p.delayAfter n).nanos = p.doubled (min n.toNat 32) := by
    intro n hn
    refine nanos_delayAfter hp ?_
    rintro rfl
    exact absurd hn (by decide)
  refine ⟨hdelay, fun n hn => ?_, fun m n => nanos_delayAfter_mono hp, nanos_delayAfter_le hp⟩
  rw [hdelay n hn]
  rcases Nat.lt_or_ge 32 n.toNat with hlate | hearly
  · rw [Nat.min_eq_right (Nat.le_of_lt hlate), doubled_eq_iff (by decide) hlate]
    exact (or_iff_right (Nat.not_le_of_lt hlate)).symm
  · rw [Nat.min_eq_left hearly]
    exact iff_of_true rfl (.inl hearly)

/-- From a tenth of a second up to half a second, with as many attempts as can be counted. -/
def brisk : RetryPolicy where
  maxAttempts := 4294967295
  baseDelay := ⟨100000000, by decide⟩
  maxDelay := ⟨500000000, by decide⟩

/-- The longest delay is reached early, so that no later attempt differs. -/
theorem delayAfter_doubled_brisk :
    (brisk.delayAfter 200).nanos = brisk.doubled 200 ∧
      (brisk.delayAfter 200).nanos ≤ 500000000 := by
  obtain ⟨-, hlaw, -, hle⟩ := delayAfter_doubled (p := brisk) rfl
  exact ⟨(hlaw 200 (by decide)).2 (.inr (.inr (by decide))), hle 200⟩

/-- From a nanosecond up to an hour. -/
def patient : RetryPolicy where
  maxAttempts := 100
  baseDelay := ⟨1, by decide⟩
  maxDelay := .ofSeconds 3600

/-- The delay after the 33rd attempt is not twice the one before it, although it is far from the
longest one. -/
theorem doubling_ends :
    patient.backoff = .exponential ∧ (patient.delayAfter 32).nanos = 2147483648 ∧
      (patient.delayAfter 33).nanos = 2147483648 ∧
      min (patient.baseDelay.nanos * 2 ^ (33 - 1)) patient.maxDelay.nanos = 4294967296 := by
  decide +kernel

end RetryPolicy

/-! ## Queues that withhold a job -/

namespace JobQueue

variable {q : JobQueue} {now : Instant} {u : Uuid} {job : Job} {call : QueueCall}

theorem picks_of_not_ready (hq : q.Keyed) (hjob : q.jobs.get? u = some job)
    (hidle : isReady now job = false) : q.picks now u = false := by
  rw [picks]
  rcases claim_cases hq now with ⟨hnone, -⟩ | ⟨other, hother, hready, hsome⟩
  · rw [hnone]
    rfl
  · rw [hsome]
    exact decide_eq_false fun h => ne_id_of_ready hjob hidle hother hready h.symm

/-- A job that is not ready stays as it is under a call that does not name it. -/
theorem Filed.serve_of_not_ready (hq : q.Filed) (hjob : q.jobs.get? u = some job)
    (hidle : isReady now job = false) (hcall : call.id? ≠ some u) :
    (q.serve now call).2.jobs.get? u = some job := by
  cases hid : call.id? with
  | some v =>
    have hne : u ≠ v := fun h => hcall (h ▸ hid)
    exact (hq.serve_of_ne now hid hne).1.trans hjob
  | none =>
    obtain rfl : call = .claim := by cases call <;> first | rfl | cases hid
    simp only [JobQueue.serve]
    rcases claim_cases hq.jobs now with ⟨hnone, -⟩ | ⟨other, hother, hready, hsome⟩
    · rw [hnone]
      exact hjob
    · rw [hsome]
      exact (Table.get?_insert_of_ne (ne_id_of_ready hjob hidle hother hready) ..).trans hjob

theorem Filed.run_of_not_ready (hq : q.Filed) (hjob : q.jobs.get? u = some job)
    {calls : List (Instant × QueueCall)}
    (hcalls : ∀ c ∈ calls, isReady c.1 job = false ∧ c.2.id? ≠ some u) :
    (q.run calls).jobs.get? u = some job := by
  induction calls generalizing q with
  | nil => exact hjob
  | cons c rest ih =>
    obtain ⟨hready, hcall⟩ := hcalls c List.mem_cons_self
    exact ih (hq.serve c.1 c.2) (hq.serve_of_not_ready hjob hready hcall)
      fun c' hc' => hcalls c' (List.mem_cons_of_mem _ hc')

theorem Filed.overwrite (hq : q.Filed) (job : Job) (hlive : q.jobs.contains job.id = true) :
    Filed { q with jobs := q.jobs.insert job.id job } := by
  have hserved := hq.serve ⟨0, false⟩ (.update job)
  rwa [JobQueue.serve, update, if_pos hlive] at hserved

/-- A job stands in the queue and is not claimed before an instant, whatever is asked of the queue
about other jobs before it. -/
structure Withholds (q : JobQueue) (job : Job) (due : Instant) : Prop where
  live : q.jobs.get? job.id = some job
  kept : ∀ calls : List (Instant × QueueCall),
    (∀ c ∈ calls, c.1 < due ∧ c.2.id? ≠ some job.id) →
      (q.run calls).jobs.get? job.id = some job ∧
        ∀ t : Instant, t < due → (q.run calls).picks t job.id = false

/-- A job that is not ready before an instant is not claimed before it. -/
theorem Filed.withholds (hq : q.Filed) (hjob : q.jobs.get? job.id = some job) {due : Instant}
    (hdue : ∀ t : Instant, t < due → isReady t job = false) : q.Withholds job due := by
  refine ⟨hjob, fun calls hcalls => ?_⟩
  have hstays := hq.run_of_not_ready hjob fun c hc => ⟨hdue c.1 (hcalls c hc).1, (hcalls c hc).2⟩
  exact ⟨hstays, fun t ht => picks_of_not_ready (hq.run calls).jobs hstays (hdue t ht)⟩

end JobQueue

/-! ## Failures -/

namespace Job

variable {job : Job} {error : String} {now : Instant}

/-- An execution of the job fails, and its queue takes down that it did. -/
structure FailsIn {σ : Type} (job : Job) (error : String) (x : Executor σ) (q : JobQueue)
    (world : σ) : Prop where
  writes : x.gate.writes = none
  filed : q.Filed
  live : q.jobs.contains job.id = true
  fails : (x.handle job world).1 = .failure error

/-- A failure puts the job off until an instant: from then on it is ready, and not before. If it
fails in an execution, the queue withholds it until then. -/
def Postpones (job : Job) (error : String) (now due : Instant) : Prop :=
  ∃ job', job.fail error now = .ok job' ∧
    (∀ t : Instant, JobQueue.isReady t job' = true ↔ due ≤ t) ∧
    ∀ {σ : Type} (x : Executor σ) (q : JobQueue) (world : σ), job.FailsIn error x q world →
      (x.execute now job q world).1 = .ok ⟨job', .error (.handler error)⟩ ∧
        (x.execute now job q world).2.1.Withholds job' due

/-- A failure ends in the middle: nothing is recorded, and the queue keeps the job as it was. -/
def IsCutOff (job : Job) (error : String) (now : Instant) : Prop :=
  job.fail error now = .error .pastLastInstant ∧
    ∀ {σ : Type} (x : Executor σ) (q : JobQueue) (world : σ), job.FailsIn error x q world →
      (x.execute now job q world).1 = .error .pastLastInstant ∧
        (x.execute now job q world).2.1 = q

/-- What an execution that fails leaves to record. -/
theorem FailsIn.execute_eq {σ : Type} {x : Executor σ} {q : JobQueue} {world : σ}
    (h : job.FailsIn error x q world) : x.execute now job q world =
      ((x.recordFailure now job error q).1, (x.recordFailure now job error q).2,
        (x.handle job world).2) := by
  have hhandle : x.handle job world = (.failure error, (x.handle job world).2) :=
    Prod.ext h.fails rfl
  rw [Executor.execute, hhandle]

/-- A failure is made up for when its delay is over, if an instant can be put off that long. -/
theorem retryAt?_of_short
    (hshort : (job.policy.delayAfter job.attempt).nanos ≤ Duration.longestStep) :
    job.retryAt? now = now.add? (job.policy.delayAfter job.attempt).nanos := by
  rw [retryAt?, Duration.step?, if_pos hshort]
  rfl

/-- Otherwise it is made up for at once. -/
theorem retryAt?_of_overlong (hlast : now.base ≤ Instant.last)
    (hlong : Duration.longestStep < (job.policy.delayAfter job.attempt).nanos) :
    job.retryAt? now = some now := by
  have hsum : now.base + ((none : Option Nat).getD 0 : Nat) = now.base := Int.add_zero _
  rw [retryAt?, Duration.step?, if_neg (Nat.not_le_of_lt hlong), Instant.add?, hsum, if_pos hlast]
  exact congrArg some Instant.after_zero

section Allowed

variable (hallowed : job.policy.allowsRetry job.attempt = true)

include hallowed

theorem fail_of_retryAt? {t : Instant} (ht : job.retryAt? now = some t) :
    job.fail error now = .ok (job.postponed error t now) := by
  rw [retryAt?] at ht
  simp only [fail, hallowed, if_true, ht, postponed]

theorem postpones_of_retryAt? {t : Instant} (ht : job.retryAt? now = some t) :
    job.Postpones error now t := by
  have hfail : job.fail error now = .ok (job.postponed error t now) :=
    fail_of_retryAt? hallowed ht
  have hready : ∀ t' : Instant,
      JobQueue.isReady t' (job.postponed error t now) = true ↔ t ≤ t' :=
    fun t' => decide_eq_true_iff
  refine ⟨_, hfail, hready, fun x q world h => ?_⟩
  have hupdate : q.update (job.postponed error t now) =
      .ok { q with jobs := q.jobs.insert job.id (job.postponed error t now) } := if_pos h.live
  rw [h.execute_eq]
  simp only [Executor.recordFailure, hfail, postponed, QueueGate.update, h.writes]
  rw [show ({ job with status := _, updated := _, scheduled := _ } : Job) =
    job.postponed error t now from rfl, hupdate]
  have hfiled := h.filed.overwrite (job.postponed error t now) h.live
  refine ⟨rfl, hfiled.withholds (Table.get?_insert_self ..) fun t' ht' => ?_⟩
  exact eq_false_of_ne_true fun hr => not_le.2 ht' ((hready t').1 hr)

theorem isCutOff_of_retryAt? (ht : job.retryAt? now = none) : job.IsCutOff error now := by
  have hfail : job.fail error now = .error .pastLastInstant := by
    rw [retryAt?] at ht
    simp only [fail, hallowed, if_true, ht]
  refine ⟨hfail, fun x q world h => ?_⟩
  rw [h.execute_eq]
  simp only [Executor.recordFailure, hfail, and_self]

end Allowed

/-- A failure with an attempt left puts the job off for the whole delay of its policy iff the delay
ends at an instant. A delay that leads past the last instant cuts the failure off; one that is too
long to be added to any instant is skipped, and the job is ready at once. -/
theorem fail_postpones (job : Job) (error : String) (now : Instant)
    (hfirst : Instant.first ≤ now.base) (hlast : now.base ≤ Instant.last)
    (hallowed : job.policy.allowsRetry job.attempt = true) :
    let delay := (job.policy.delayAfter job.attempt).nanos
    (job.Postpones error now (now.after delay) ↔ now.base + delay ≤ Instant.last) ∧
      (Instant.last < now.base + delay → delay ≤ Duration.longestStep →
        job.IsCutOff error now) ∧
      (Duration.longestStep < delay → job.Postpones error now now) := by
  intro delay
  have hskipped : Duration.longestStep < delay → job.Postpones error now now := fun hlong =>
    postpones_of_retryAt? hallowed (retryAt?_of_overlong hlast hlong)
  have hcut : Instant.last < now.base + delay → delay ≤ Duration.longestStep →
      job.IsCutOff error now := by
    intro hpast hshort
    refine isCutOff_of_retryAt? hallowed ?_
    rw [retryAt?_of_short hshort, Instant.add?, if_neg (Int.not_le.2 hpast)]
  refine ⟨⟨fun h => ?_, fun hle => ?_⟩, hcut, hskipped⟩
  · by_contra hpast
    obtain ⟨job', hfail, hready, -⟩ := h
    rcases Nat.lt_or_ge Duration.longestStep delay with hlong | hshort
    · obtain ⟨job'', hfail', hready', -⟩ := hskipped hlong
      obtain rfl := Except.ok.inj (hfail.symm.trans hfail')
      have hearly : now.after delay ≤ now := (hready now).1 ((hready' now).2 le_rfl)
      have hlater : now < now.after delay := Instant.lt_after (Nat.zero_lt_of_lt hlong)
      exact hearly.not_gt hlater
    · have haborted := (hcut (Int.not_le.1 hpast) hshort).1
      rw [hfail] at haborted
      cases haborted
  · -- No span between two instants is too long to be added to one.
    have hshort : delay ≤ Duration.longestStep := by
      unfold Duration.longestStep
      unfold Instant.first at hfirst
      unfold Instant.last at hle
      omega
    have ht : job.retryAt? now = some (now.after delay) := by
      rw [retryAt?_of_short hshort, Instant.add?, if_pos hle]
    exact postpones_of_retryAt? hallowed ht

/-- A job that may be attempted twice, with a delay in between, and was begun once. -/
def mailing (delay : Duration) : Job :=
  ({ Job.new (.ofNat 7) (.custom "mail") .null ⟨0, false⟩ with policy := .fixed 2 delay }).start
    ⟨0, false⟩

/-- A delay may end at the last instant of all. -/
theorem fail_postpones_last :
    (mailing ⟨8210266876799999999999, by decide⟩).Postpones "busy" ⟨0, false⟩
      ⟨Instant.last, false⟩ := by
  obtain ⟨hkept, -⟩ := fail_postpones (mailing ⟨8210266876799999999999, by decide⟩) "busy"
    ⟨0, false⟩ (by decide) (by decide) (by decide)
  exact hkept.2 (by decide)

/-- Of two delays that lead past the last instant, the one that is too long to be added makes the
job ready at once, so that it is claimed again; the other one cuts the failure off. -/
theorem overlong_delays_lost :
    let busy : Executor Unit := { handlers := [("mail", fun _ world => (.failure "busy", world))] }
    let failed := fun delay =>
      busy.execute ⟨0, false⟩ (mailing delay) { jobs := .ofList [(.ofNat 7, mailing delay)] } ()
    (∃ job, (mailing (.ofSeconds 9223372036854776)).fail "busy" ⟨0, false⟩ = .ok job ∧
        JobQueue.isReady ⟨0, false⟩ job = true) ∧
      ((failed (.ofSeconds 9223372036854776)).2.1.claim ⟨0, false⟩).1.map (·.attempt) = some 2 ∧
      (mailing (.ofSeconds 9000000000000)).fail "busy" ⟨0, false⟩ = .error .pastLastInstant ∧
      (failed (.ofSeconds 9000000000000)).1 = .error .pastLastInstant := by
  intro busy failed
  exact ⟨⟨_, rfl, by decide⟩, by decide +kernel, rfl, rfl⟩

end Job

end Lineage
