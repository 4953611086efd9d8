import Lineage.Proofs.Queue

/-!
# How often jobs are attempted

A job counts its attempts itself: the count goes up when the job is claimed, is compared with the
policy when the attempt fails, and starts again when a dead letter is taken back. `Backlog` keeps a
record of the executions beside the queue, so that the two can be compared.

* `Backlog`, `Chore`: a queue with its clock and its record, and what may happen next.
* `Mark.reports`: what the executions of a job reported since it entered the queue.
* `Job.Accounted`, `DeadLetter.Accounted`: what a job says about these reports between two chores.
* `Backlog.Kept`: every job and every dead letter is accounted for; every chore keeps this
  (`Backlog.Kept.step`).
* `Backlog.run_accounted`: so does every run, and what is completed stays so.
-/

namespace Lineage

/-! ## Records -/

/-- What happened to a job. -/
inductive Mark
  /-- It was put into the queue, or taken back into it. -/
  | entered (id : Uuid)
  | executed (id : Uuid) (report : JobResult)
  deriving DecidableEq

namespace Mark

/-- What the executions of a job reported since its latest entry, the latest first. -/
def reports (id : Uuid) : List Mark → List JobResult
  | [] => []
  | entered u :: rest => if u = id then [] else reports id rest
  | executed u report :: rest => if u = id then report :: reports id rest else reports id rest

variable {id u : Uuid} {marks : List Mark}

theorem reports_entered : reports id (entered id :: marks) = [] := if_pos rfl

theorem reports_entered_of_ne (hu : u ≠ id) :
    reports u (entered id :: marks) = reports u marks := if_neg hu.symm

theorem reports_executed (report : JobResult) :
    reports id (executed id report :: marks) = report :: reports id marks := if_pos rfl

theorem reports_executed_of_ne (hu : u ≠ id) (report : JobResult) :
    reports u (executed id report :: marks) = reports u marks := if_neg hu.symm

end Mark

/-! ## Accounts -/

/-- A live job between two runs of the executor, given what its executions reported. -/
structure Job.Accounted (job : Job) (reports : List JobResult) : Prop where
  /-- Every attempt was one execution. -/
  count : reports.length = job.attempt.toNat
  bound : job.attempt.toNat ≤ max 1 job.policy.maxAttempts.toNat
  stage : match job.status with
    | .pending => job.attempt = 0
    | .running => False
    | .completed => reports.head? = some .success
    | .failed error attempt => attempt = job.attempt ∧ 1 ≤ attempt ∧
        attempt < job.policy.maxAttempts ∧ job.scheduled.isSome = true ∧
        reports.head? = some (.failure error)
    | .deadLettered _ _ => False

/-- A dead letter, given what its executions reported. -/
structure DeadLetter.Accounted (letter : DeadLetter) (reports : List JobResult) : Prop where
  count : reports.length = letter.job.attempt.toNat
  exhausted : letter.job.attempt = max 1 letter.job.policy.maxAttempts
  status : letter.job.status = .deadLettered letter.reason letter.job.attempt
  reason : reports.head? = some (.failure letter.reason)

theorem Job.Accounted.of_pending {job : Job} (hpending : job.status = .pending)
    (hattempt : job.attempt = 0) : job.Accounted [] where
  count := by rw [hattempt]; rfl
  bound := by rw [hattempt]; exact Nat.zero_le _
  stage := by rw [hpending]; exact hattempt

/-- A job that waits has an attempt left. -/
theorem Job.Accounted.attempt_lt {job : Job} {reports : List JobResult}
    (h : job.Accounted reports) (hwaiting : job.status.isWaiting = true) :
    job.attempt.toNat < max 1 job.policy.maxAttempts.toNat := by
  have hstage := h.stage
  cases hs : job.status with
  | pending =>
    rw [hs] at hstage
    rw [hstage]
    exact Nat.lt_of_lt_of_le Nat.zero_lt_one (Nat.le_max_left ..)
  | failed error attempt =>
    rw [hs] at hstage
    obtain ⟨rfl, -, hlt, -⟩ := hstage
    exact Nat.lt_of_lt_of_le hlt (Nat.le_max_right ..)
  | running => rw [hs] at hwaiting; cases hwaiting
  | completed => rw [hs] at hwaiting; cases hwaiting
  | deadLettered => rw [hs] at hwaiting; cases hwaiting

/-- The count of a job with an attempt left does not overflow. -/
theorem Job.attempt_start {job : Job} (now : Instant)
    (h : job.attempt.toNat < max 1 job.policy.maxAttempts.toNat) :
    (job.start now).attempt.toNat = job.attempt.toNat + 1 := by
  have hmax := job.policy.maxAttempts.toNat_lt
  exact toNat_attempt_start now (show job.attempt.toNat + 1 < 2 ^ 32 by omega)

namespace JobQueue

variable {q q' : JobQueue} {u : Uuid} {reports : List JobResult}

/-- What the queue holds under an id is accounted for. -/
structure Accounts (q : JobQueue) (u : Uuid) (reports : List JobResult) : Prop where
  live : ∀ job, q.jobs.get? u = some job →
    job.id = u ∧ q.deadLetters.get? u = none ∧ job.Accounted reports
  letter : ∀ letter, q.deadLetters.get? u = some letter →
    letter.job.id = u ∧ letter.Accounted reports

/-- Accounts depend on what stands under the id alone. -/
theorem Accounts.of_eq (h : q.Accounts u reports) (hjobs : q'.jobs.get? u = q.jobs.get? u)
    (hletters : q'.deadLetters.get? u = q.deadLetters.get? u) : q'.Accounts u reports where
  live job hjob := hletters ▸ h.live job (hjobs ▸ hjob)
  letter letter hletter := h.letter letter (hletters ▸ hletter)

/-- A queue in which a job stands under an id, and no dead letter. -/
theorem Accounts.of_live {job : Job} (hjob : q.jobs.get? u = some job) (hid : job.id = u)
    (hletter : q.deadLetters.get? u = none) (h : job.Accounted reports) :
    q.Accounts u reports where
  live job' hjob' := by
    obtain rfl := Option.some.inj (hjob.symm.trans hjob')
    exact ⟨hid, hletter, h⟩
  letter letter hletter' := by
    rw [hletter] at hletter'
    cases hletter'

theorem Ends.letter_of_ne {now : Instant} {job : Job} {result : JobResult}
    (h : q.Ends now job result q') (hu : u ≠ job.id) :
    q'.deadLetters.get? u = q.deadLetters.get? u := by
  cases h with
  | completed => rfl
  | postponed => rfl
  | givenUp => exact Table.get?_insert_of_ne hu ..
  | aborted => rfl

/-- The execution of a job that waited is accounted for, unless it is cut off. -/
theorem Ends.accounts {now : Instant} {job : Job} {result : JobResult}
    (h : Ends now q (job.start now) result q') (hletter : q.deadLetters.get? job.id = none)
    (haccounted : job.Accounted reports) (hwaiting : job.status.isWaiting = true)
    (hdue : (job.start now).policy.allowsRetry (job.start now).attempt = true →
      ((job.start now).retryAt? now).isSome = true) :
    q'.Accounts job.id (result :: reports) := by
  have hlt := haccounted.attempt_lt hwaiting
  have hstart := Job.attempt_start now hlt
  have hcount : (result :: reports).length = (job.start now).attempt.toNat := by
    rw [List.length_cons, haccounted.count, hstart]
  have hbound : (job.start now).attempt.toNat ≤ max 1 job.policy.maxAttempts.toNat :=
    hstart ▸ hlt
  cases h with
  | completed =>
    exact .of_live (Table.get?_insert_self ..) rfl hletter ⟨hcount, hbound, rfl⟩
  | postponed error due hallowed hretry =>
    refine .of_live (Table.get?_insert_self ..) rfl hletter ⟨hcount, hbound, rfl, ?_, ?_, rfl, rfl⟩
    · exact UInt32.le_iff_toNat_le.2 (hstart ▸ Nat.le_add_left ..)
    · exact of_decide_eq_true hallowed
  | givenUp error hspent =>
    refine ⟨fun job' hjob' => ?_, fun letter hletter' => ?_⟩
    · have hnone : (q.jobs.erase job.id).get? job.id = none := Table.get?_erase_self ..
      exact absurd (hnone.symm.trans hjob') (Option.some_ne_none _).symm
    · obtain rfl := Option.some.inj ((Table.get?_insert_self ..).symm.trans hletter')
      refine ⟨rfl, hcount, ?_, rfl, rfl⟩
      have hge : job.policy.maxAttempts.toNat ≤ (job.start now).attempt.toNat :=
        Nat.le_of_not_lt (of_decide_eq_false hspent)
      refine UInt32.toNat_inj.1 (Nat.le_antisymm ?_ ?_)
      · rw [UInt32.toNat_max]
        exact hbound
      · rw [UInt32.toNat_max]
        exact Nat.max_le.2 ⟨hstart ▸ Nat.le_add_left .., hge⟩
  | aborted error hallowed hretry =>
    have hsome := hdue hallowed
    rw [hretry] at hsome
    cases hsome

end JobQueue

/-! ## Chores -/

/-- A queue under a clock, and what happened to its jobs. -/
structure Backlog where
  queue : JobQueue := {}
  now : Instant
  /-- The latest first. -/
  marks : List Mark := []

/-- What happens next. -/
inductive Chore (σ : Type)
  | enqueue (job : Job)
  /-- A run of an executor with some handlers, which act on a state of theirs. -/
  | runNext (handlers : List (String × Handler σ)) (world : σ)
  /-- A dead letter is taken back. -/
  | revive (id : Uuid)
  /-- A dead letter is forgotten. -/
  | discard (id : Uuid)
  /-- The clock moves on to an instant, unless that is over. -/
  | wait (t : Instant)

namespace Backlog

variable {σ : Type}

/-- What is after a chore. What the queue refuses changes nothing. -/
def step (b : Backlog) : Chore σ → Backlog
  | .enqueue job =>
    match b.queue.enqueue job with
    | .ok q => { b with queue := q, marks := .entered job.id :: b.marks }
    | .error _ => b
  | .runNext handlers world =>
    let x : Executor σ := { handlers }
    let executed := (b.queue.claim b.now).1.map fun job =>
      Mark.executed job.id (x.handle job world).1
    { b with
      queue := (x.runNext b.now b.queue world).2.1
      marks := executed.toList ++ b.marks }
  | .revive id =>
    match b.queue.revive id b.now with
    | .ok (_, q) => { b with queue := q, marks := .entered id :: b.marks }
    | .error _ => b
  | .discard id =>
    match b.queue.discard id with
    | .ok q => { b with queue := q }
    | .error _ => b
  | .wait t => { b with now := max b.now t }

/-- What is after some chores. -/
def run (b : Backlog) (chores : List (Chore σ)) : Backlog := chores.foldl step b

/-- A job comes in fresh: it was never attempted, and no dead letter has its id. A job that may be
attempted again can be put off for as long as its policy says. -/
def admits (b : Backlog) : Chore σ → Bool
  | .enqueue job =>
    job.status = .pending ∧ job.attempt = 0 ∧ b.queue.deadLetters.contains job.id = false
  | .runNext _ _ => (b.queue.claim b.now).1.all fun job =>
    !job.policy.allowsRetry job.attempt || (job.retryAt? b.now).isSome
  | _ => true

/-- Every chore is admitted when its turn comes. -/
def admitsAll (b : Backlog) : List (Chore σ) → Bool
  | [] => true
  | chore :: rest => b.admits chore && (b.step chore).admitsAll rest

theorem admitsAll_append {b : Backlog} {before after : List (Chore σ)} :
    b.admitsAll (before ++ after) = true ↔
      b.admitsAll before = true ∧ (b.run before).admitsAll after = true := by
  induction before generalizing b with
  | nil => exact ⟨fun h => ⟨rfl, h⟩, fun h => h.2⟩
  | cons chore rest ih =>
    rw [List.cons_append, admitsAll, admitsAll, Bool.and_eq_true, Bool.and_eq_true, ih, and_assoc]
    rfl

/-- What the executions of a job reported since its latest entry, the latest first. -/
def reports (b : Backlog) (u : Uuid) : List JobResult := Mark.reports u b.marks

/-- Every job and every dead letter is accounted for. -/
def Kept (b : Backlog) : Prop := ∀ u, b.queue.Accounts u (b.reports u)

namespace Kept

variable {b : Backlog} (hb : b.Kept)

include hb

theorem keyed : b.queue.Keyed := fun u job hjob => ((hb u).live job hjob).1

theorem enqueue (job : Job) (hadmits : b.admits (.enqueue job : Chore σ) = true) :
    (b.step (.enqueue job : Chore σ)).Kept := by
  obtain ⟨hpending, hattempt, hletter⟩ := of_decide_eq_true hadmits
  cases hlive : b.queue.jobs.contains job.id with
  | true =>
    simp only [step, JobQueue.enqueue, hlive, if_true]
    exact hb
  | false =>
    simp only [step, JobQueue.enqueue, hlive, Bool.false_eq_true, if_false]
    intro u
    by_cases hu : u = job.id
    · rw [hu, reports, Mark.reports_entered]
      exact .of_live (Table.get?_insert_self ..) rfl (Table.not_contains_iff.1 hletter)
        (.of_pending hpending hattempt)
    · rw [reports, Mark.reports_entered_of_ne hu]
      exact (hb u).of_eq (Table.get?_insert_of_ne hu ..) rfl

theorem revive (id : Uuid) : (b.step (.revive id : Chore σ)).Kept := by
  cases hletter : b.queue.deadLetters.get? id with
  | none =>
    simp only [step, JobQueue.revive, hletter]
    exact hb
  | some letter =>
    obtain ⟨rfl, -⟩ := (hb id).letter letter hletter
    simp only [step, JobQueue.revive, hletter]
    intro u
    by_cases hu : u = letter.job.id
    · rw [hu, reports, Mark.reports_entered]
      exact .of_live (Table.get?_insert_self ..) rfl (Table.get?_erase_self ..)
        (.of_pending rfl rfl)
    · rw [reports, Mark.reports_entered_of_ne hu]
      exact (hb u).of_eq (Table.get?_insert_of_ne hu ..) (Table.get?_erase_of_ne hu ..)

theorem discard (id : Uuid) : (b.step (.discard id : Chore σ)).Kept := by
  cases hletter : b.queue.deadLetters.contains id with
  | false =>
    simp only [step, JobQueue.discard, hletter, Bool.false_eq_true, if_false]
    exact hb
  | true =>
    simp only [step, JobQueue.discard, hletter, if_true]
    refine fun u => ⟨fun job hjob => ?_, fun letter hletter => ?_⟩
    · obtain ⟨hid, hnone, haccounted⟩ := (hb u).live job hjob
      exact ⟨hid, (Table.get?_erase ..).trans (by rw [hnone, ite_self]), haccounted⟩
    · have hletter := (Table.get?_erase ..).symm.trans hletter
      split at hletter
      case isTrue => cases hletter
      case isFalse => exact (hb u).letter letter hletter

/-- A run executes one job, which waited, and leaves the others as they are. -/
theorem runNext (handlers : List (String × Handler σ)) (world : σ)
    (hadmits : b.admits (.runNext handlers world) = true) :
    (b.step (.runNext handlers world)).Kept := by
  rw [step]
  rw [admits] at hadmits
  rcases Executor.runNext_ends (x := { handlers }) rfl hb.keyed b.now world with
    ⟨hclaim, hidle, -⟩ | ⟨job, hclaim, hjob, hready, -, hends⟩
  · rw [hclaim, hidle]
    exact hb
  rw [hclaim] at hadmits ⊢
  obtain ⟨-, hletter, haccounted⟩ := (hb job.id).live job hjob
  intro u
  change JobQueue.Accounts _ u (Mark.reports u (.executed job.id _ :: b.marks))
  by_cases hu : u = job.id
  · have hwaiting : job.status.isWaiting = true := (Bool.and_eq_true_iff.1 hready).1
    rw [hu, Mark.reports_executed]
    refine hends.accounts hletter haccounted hwaiting fun hallowed => ?_
    rwa [Option.all_some, hallowed, Bool.not_true, Bool.false_or] at hadmits
  · rw [Mark.reports_executed_of_ne hu]
    refine (hb u).of_eq ((hends.get?_of_ne hu).trans ?_) (hends.letter_of_ne hu)
    exact Table.get?_insert_of_ne hu ..

/-- Every chore that is admitted keeps all jobs accounted for. -/
theorem step (chore : Chore σ) (hadmits : b.admits chore = true) : (b.step chore).Kept := by
  cases chore with
  | enqueue job => exact hb.enqueue job hadmits
  | runNext handlers world => exact hb.runNext handlers world hadmits
  | revive id => exact hb.revive id
  | discard id => exact hb.discard id
  | wait t => exact hb

theorem run (chores : List (Chore σ)) (hadmits : b.admitsAll chores = true) :
    (b.run chores).Kept := by
  induction chores generalizing b with
  | nil => exact hb
  | cons chore rest ih =>
    obtain ⟨hchore, hrest⟩ := Bool.and_eq_true_iff.1 hadmits
    exact ih (hb.step chore hchore) hrest

/-! ## Completed jobs -/

section Completed

variable {u : Uuid} {job : Job} (hjob : b.queue.jobs.get? u = some job)
  (hdone : job.status = .completed)

include hjob hdone

omit hb in
theorem not_ready {job' : Job} {t : Instant} (hjob' : b.queue.jobs.get? job'.id = some job')
    (hready : JobQueue.isReady t job' = true) : u ≠ job'.id := by
  refine JobQueue.ne_id_of_ready hjob ?_ hjob' hready
  rw [JobQueue.isReady, hdone]
  rfl

theorem not_claimed {t : Instant} {claimed : Job} (hclaim : (b.queue.claim t).1 = some claimed) :
    claimed.id ≠ u := by
  rcases JobQueue.claim_cases hb.keyed t with ⟨hnone, -⟩ | ⟨job', hjob', hready, hsome⟩
  · rw [hnone] at hclaim
    cases hclaim
  · rw [hsome] at hclaim
    obtain rfl := Option.some.inj hclaim
    exact (not_ready hjob hdone hjob' hready).symm

theorem completed_step (chore : Chore σ) : (b.step chore).queue.jobs.get? u = some job := by
  cases chore with
  | enqueue job' =>
    cases hlive : b.queue.jobs.contains job'.id with
    | true =>
      simp only [Backlog.step, JobQueue.enqueue, hlive, if_true]
      exact hjob
    | false =>
      have hu : u ≠ job'.id := by
        rintro rfl
        rw [Table.not_contains_iff.1 hlive] at hjob
        cases hjob
      simp only [Backlog.step, JobQueue.enqueue, hlive, Bool.false_eq_true, if_false]
      exact (Table.get?_insert_of_ne hu ..).trans hjob
  | runNext handlers world =>
    rw [Backlog.step]
    rcases Executor.runNext_ends (x := { handlers }) rfl hb.keyed b.now world with
      ⟨-, hidle, -⟩ | ⟨job', -, hjob', hready, -, hends⟩
    · rw [hidle]
      exact hjob
    · have hu := not_ready hjob hdone hjob' hready
      exact (hends.get?_of_ne hu).trans ((Table.get?_insert_of_ne hu ..).trans hjob)
  | revive id =>
    cases hletter : b.queue.deadLetters.get? id with
    | none =>
      simp only [Backlog.step, JobQueue.revive, hletter]
      exact hjob
    | some letter =>
      obtain ⟨rfl, -⟩ := (hb id).letter letter hletter
      have hu : u ≠ letter.job.id := by
        rintro rfl
        rw [((hb _).live job hjob).2.1] at hletter
        cases hletter
      simp only [Backlog.step, JobQueue.revive, hletter]
      exact (Table.get?_insert_of_ne hu ..).trans hjob
  | discard id =>
    cases hletter : b.queue.deadLetters.contains id with
    | true =>
      simp only [Backlog.step, JobQueue.discard, hletter, if_true]
      exact hjob
    | false =>
      simp only [Backlog.step, JobQueue.discard, hletter, Bool.false_eq_true, if_false]
      exact hjob
  | wait t => exact hjob

theorem completed_run (chores : List (Chore σ)) (hadmits : b.admitsAll chores = true) :
    (b.run chores).queue.jobs.get? u = some job := by
  induction chores generalizing b with
  | nil => exact hjob
  | cons chore rest ih =>
    obtain ⟨hchore, hrest⟩ := Bool.and_eq_true_iff.1 hadmits
    exact ih (hb.step chore hchore) (hb.completed_step hjob hdone chore) hrest

end Completed

end Kept

/-- The state before any chore. -/
def start (now : Instant) : Backlog := { now }

theorem start_kept (now : Instant) : (start now).Kept :=
  fun _ => ⟨fun _ h => (nomatch h), fun _ h => (nomatch h)⟩

/-- In every state to which chores lead from an empty queue, each job and each dead letter has been
executed as often as it says since it entered the queue, which is at most as often as its policy
allows; a dead letter gives the latest failure as its reason. A completed job stays as it is and is
never claimed again. Jobs come in fresh, and none fails so late that its next attempt lies beyond
the last instant. -/
theorem run_accounted (now : Instant) (chores : List (Chore σ))
    (hadmits : (start now).admitsAll chores = true) :
    let b := (start now).run chores
    (∀ u job, b.queue.jobs.get? u = some job → job.id = u ∧ job.Accounted (b.reports u)) ∧
      (∀ u letter, b.queue.deadLetters.get? u = some letter →
        letter.job.id = u ∧ letter.Accounted (b.reports u)) ∧
      ∀ before after, chores = before ++ after → ∀ u job,
        ((start now).run before).queue.jobs.get? u = some job → job.status = .completed →
          b.queue.jobs.get? u = some job ∧
            ∀ t claimed, (b.queue.claim t).1 = some claimed → claimed.id ≠ u := by
  intro b
  have hb : b.Kept := (start_kept now).run chores hadmits
  refine ⟨fun u job hjob => ?_, fun u => (hb u).letter, ?_⟩
  · obtain ⟨hid, -, haccounted⟩ := (hb u).live job hjob
    exact ⟨hid, haccounted⟩
  · rintro before after rfl u job hjob hdone
    obtain ⟨hbefore, hafter⟩ := admitsAll_append.1 hadmits
    have hstays : b.queue.jobs.get? u = some job := by
      rw [show b = ((start now).run before).run after from List.foldl_append]
      exact ((start_kept now).run before hbefore).completed_run hjob hdone after hafter
    exact ⟨hstays, fun t claimed hclaim => hb.not_claimed hstays hdone hclaim⟩

/-- A job without a handler that may be attempted not even once, and one that fails the first of
two times. The former is given up, taken back and given up again. -/
def flaky : List (Chore Unit) :=
  let mail : Handler Unit := fun job world =>
    (if job.attempt = 1 then .failure "busy" else .success, world)
  let run : Chore Unit := .runNext [("mail", mail)] ()
  [.enqueue { Job.new (.ofNat 0) (.custom "lost") .null ⟨0, false⟩ with policy := .fixed 0 .zero },
    .enqueue { Job.new (.ofNat 1) (.custom "mail") .null ⟨0, false⟩ with policy := .fixed 2 .zero },
    run, run, .revive (.ofNat 0), .wait ⟨1, false⟩, run, run, run]

theorem run_accounted_flaky :
    let b := (start ⟨0, false⟩).run flaky
    (∃ letter, b.queue.deadLetters.get? (.ofNat 0) = some letter ∧
        letter.Accounted [.failure "no handler for job kind lost"]) ∧
      ∃ job, b.queue.jobs.get? (.ofNat 1) = some job ∧
        job.Accounted [.success, .failure "busy"] := by
  intro b
  obtain ⟨hlive, hletters, -⟩ := run_accounted ⟨0, false⟩ flaky (by decide +kernel)
  have hlost : b.reports (.ofNat 0) = [.failure "no handler for job kind lost"] := by
    decide +kernel
  have hmail : b.reports (.ofNat 1) = [.success, .failure "busy"] := by decide +kernel
  obtain ⟨letter, hletter⟩ := Table.contains_iff.1
    (show b.queue.deadLetters.contains (.ofNat 0) = true by decide +kernel)
  obtain ⟨job, hjob⟩ := Table.contains_iff.1
    (show b.queue.jobs.contains (.ofNat 1) = true by decide +kernel)
  exact ⟨⟨letter, hletter, hlost ▸ (hletters _ letter hletter).2⟩,
    job, hjob, hmail ▸ (hlive _ job hjob).2⟩

end Backlog

end Lineage
