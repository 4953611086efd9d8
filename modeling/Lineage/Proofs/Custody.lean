import Lineage.Proofs.Queue

/-!
# Where a queue keeps its jobs

A job that was taken in is a live job or a dead letter until it is discarded, and goes from one to
the other and back. A queue holds the two in tables of their own; whether an id is free is asked of
the live jobs alone, so that both tables may come to hold an id.

* `QueueCall`, `JobQueue.serve`: a call on a queue, its answer and what it leaves.
* `Custody.next`: what a call does to one job, told from this job alone.
* `JobQueue.Keeps`: what a queue holds under an id, in one of the tables at most.
* `JobQueue.run_conserved`: no id is ever in both tables iff no job was taken in under the id of a
  dead letter; then every job goes its own way and none is lost or replaced.
-/

namespace Lineage

/-- A call on a queue of jobs. -/
inductive QueueCall
  | enqueue (job : Job)
  | claim
  | update (job : Job)
  /-- Give a job up, as its holder has it by then. -/
  | deadLetter (job : Job) (reason : String)
  | revive (id : Uuid)
  | discard (id : Uuid)

/-- The job that a call names. A claim names none. -/
def QueueCall.id? : QueueCall → Option Uuid
  | .enqueue job | .update job | .deadLetter job _ => some job.id
  | .revive id | .discard id => some id
  | .claim => none

/-- A job that is given up. -/
def Job.givenUp (job : Job) (reason : String) (now : Instant) : Job :=
  { job with status := .deadLettered reason job.attempt, updated := now }

/-- A job that is taken back, as if never attempted. -/
def Job.revived (job : Job) (now : Instant) : Job :=
  { job with status := .pending, attempt := 0, scheduled := none, updated := now }

/-- What becomes of one job. -/
inductive Custody
  /-- There is no such job, or it was discarded. -/
  | absent
  | live (job : Job)
  | letter (letter : DeadLetter)

namespace Custody

/-- The live job. -/
def job? : Custody → Option Job
  | live job => some job
  | _ => none

/-- The dead letter. -/
def letter? : Custody → Option DeadLetter
  | letter l => some l
  | _ => none

/-- The job under an id after a call. Of a claim it must be said whether it took this job. -/
def next (u : Uuid) (now : Instant) (claimed : Bool) (c : Custody) (call : QueueCall) : Custody :=
  match c, call with
  | absent, .enqueue job => if job.id = u then live job else absent
  | live job, .claim => if claimed then live (job.start now) else live job
  | live old, .update job => if job.id = u then live job else live old
  | live old, .deadLetter job reason =>
    if job.id = u then letter ⟨job.givenUp reason now, now, reason⟩ else live old
  | letter l, .revive id => if id = u then live (l.job.revived now) else letter l
  | letter l, .discard id => if id = u then absent else letter l
  | c, _ => c

/-- A call that names another job changes nothing. -/
theorem next_of_ne {u v : Uuid} {now : Instant} {claimed : Bool} {c : Custody} {call : QueueCall}
    (hv : call.id? = some v) (hu : u ≠ v) : c.next u now claimed call = c := by
  cases call with
  | claim => cases hv
  | enqueue job | update job | deadLetter job reason =>
    obtain rfl := Option.some.inj hv
    cases c <;> simp [next, hu.symm]
  | revive id | discard id =>
    obtain rfl := Option.some.inj hv
    cases c <;> simp [next, hu.symm]

/-- A job is gone after a call only if it was not there before, or is discarded. -/
theorem next_eq_absent {u : Uuid} {now : Instant} {claimed : Bool} {c : Custody} {call : QueueCall}
    (h : c.next u now claimed call = absent) :
    c = absent ∨ (∃ l, c = letter l) ∧ call = .discard u := by
  cases c with
  | absent => exact .inl rfl
  | live job =>
    cases call with
    | claim | update | deadLetter =>
      simp only [next] at h
      split at h <;> cases h
    | enqueue | revive | discard => cases h
  | letter l =>
    cases call with
    | discard id =>
      simp only [next] at h
      split at h
      case isTrue hid => exact .inr ⟨⟨l, rfl⟩, hid ▸ rfl⟩
      case isFalse => cases h
    | revive id =>
      simp only [next] at h
      split at h <;> cases h
    | enqueue | claim | update | deadLetter => cases h

end Custody

namespace JobQueue

variable {q : JobQueue} {u : Uuid} {c : Custody} {now : Instant} {call : QueueCall}

/-! ## Calls -/

/-- The answer of a call that may be refused, and the queue after it. -/
def settled (q : JobQueue) : Except QueueError JobQueue → Except QueueError Unit × JobQueue
  | .ok q' => (.ok (), q')
  | .error e => (.error e, q)

/-- The answer to a call at an instant, and the queue after it. -/
def serve (q : JobQueue) (now : Instant) : QueueCall → Except QueueError Unit × JobQueue
  | .enqueue job => q.settled (q.enqueue job)
  | .claim => (.ok (), (q.claim now).2)
  | .update job => q.settled (q.update job)
  | .deadLetter job reason => (.ok (), q.deadLetter job reason now)
  | .revive id => q.settled ((q.revive id now).map (·.2))
  | .discard id => q.settled (q.discard id)

/-- What calls leave, each at its instant. -/
def run (q : JobQueue) (calls : List (Instant × QueueCall)) : JobQueue :=
  calls.foldl (fun q c => (q.serve c.1 c.2).2) q

theorem run_append (q : JobQueue) (before after : List (Instant × QueueCall)) :
    q.run (before ++ after) = (q.run before).run after := List.foldl_append

/-- Whether calls meet a condition, each when its turn comes. -/
def always (p : JobQueue → QueueCall → Bool) (q : JobQueue) : List (Instant × QueueCall) → Bool
  | [] => true
  | (now, call) :: rest => p q call && (q.serve now call).2.always p rest

theorem always_append {p : JobQueue → QueueCall → Bool}
    {before after : List (Instant × QueueCall)} :
    q.always p (before ++ after) = true ↔
      q.always p before = true ∧ (q.run before).always p after = true := by
  induction before generalizing q with
  | nil => exact ⟨fun h => ⟨rfl, h⟩, fun h => h.2⟩
  | cons call rest ih =>
    rw [List.cons_append, always, always, Bool.and_eq_true, Bool.and_eq_true, ih, and_assoc]
    rfl

/-- Only live jobs are given up. -/
def admits (q : JobQueue) : QueueCall → Bool
  | .deadLetter job _ => q.jobs.contains job.id
  | _ => true

/-- No job is taken in under the id of a dead letter. -/
def respects (q : JobQueue) : QueueCall → Bool
  | .enqueue job => q.jobs.contains job.id || !q.deadLetters.contains job.id
  | _ => true

/-- The dead letter with an id is not discarded. -/
def spares (u : Uuid) (q : JobQueue) : QueueCall → Bool
  | .discard id => id ≠ u || !q.deadLetters.contains id
  | _ => true

/-! ## Tables -/

/-- Live jobs and dead letters stand at their ids. -/
structure Filed (q : JobQueue) : Prop where
  jobs : q.Keyed
  letters : ∀ u l, q.deadLetters.get? u = some l → l.job.id = u

/-- What the queue holds under an id, in one table at most. -/
structure Keeps (q : JobQueue) (u : Uuid) (c : Custody) : Prop where
  job : q.jobs.get? u = c.job?
  letter : q.deadLetters.get? u = c.letter?

/-- No id is in both tables. -/
def Apart (q : JobQueue) : Prop := ∀ u, q.jobs.get? u = none ∨ q.deadLetters.get? u = none

theorem Keeps.apart (h : q.Keeps u c) : q.jobs.get? u = none ∨ q.deadLetters.get? u = none := by
  rw [h.job, h.letter]
  cases c
  · exact .inl rfl
  · exact .inr rfl
  · exact .inl rfl

/-- A queue without an id in both tables keeps something definite under each. -/
theorem Apart.exists_keeps (h : q.Apart) (u : Uuid) : ∃ c, q.Keeps u c := by
  cases hjob : q.jobs.get? u with
  | some job =>
    have hletter : q.deadLetters.get? u = none :=
      (h u).resolve_left (by rw [hjob]; exact Option.some_ne_none _)
    exact ⟨.live job, hjob, hletter⟩
  | none =>
    cases hletter : q.deadLetters.get? u with
    | none => exact ⟨.absent, hjob, hletter⟩
    | some l => exact ⟨.letter l, hjob, hletter⟩

theorem filed_empty : ({} : JobQueue).Filed := ⟨fun _ _ h => (nomatch h), fun _ _ h => (nomatch h)⟩

theorem apart_empty : ({} : JobQueue).Apart := fun _ => .inl rfl

/-! ## One call -/

/-- Whether a claim would take the job with an id. -/
def picks (q : JobQueue) (now : Instant) (u : Uuid) : Bool :=
  (q.claim now).1.any fun job => job.id = u

theorem Filed.serve (h : q.Filed) (now : Instant) (call : QueueCall) :
    (q.serve now call).2.Filed := by
  have hinsert : ∀ job v j, (q.jobs.insert job.id job).get? v = some j → j.id = v := by
    intro job v j hj
    rw [Table.get?_insert] at hj
    split at hj
    case isTrue hv => exact Option.some.inj hj ▸ hv.symm
    case isFalse => exact h.jobs v j hj
  cases call with
  | enqueue job =>
    simp only [JobQueue.serve, enqueue]
    split
    · exact h
    · exact ⟨hinsert job, h.letters⟩
  | claim =>
    simp only [JobQueue.serve]
    rcases claim_cases h.jobs now with ⟨hnone, -⟩ | ⟨job, -, -, hsome⟩
    · rw [hnone]
      exact h
    · rw [hsome]
      exact ⟨hinsert (job.start now), h.letters⟩
  | update job =>
    simp only [JobQueue.serve, update]
    split
    · exact ⟨hinsert job, h.letters⟩
    · exact h
  | deadLetter job reason =>
    refine ⟨fun v j hj => h.jobs v j (Table.get?_of_erase hj), fun v l hl => ?_⟩
    rw [JobQueue.serve, deadLetter, Table.get?_insert] at hl
    split at hl
    case isTrue hv => exact Option.some.inj hl ▸ hv.symm
    case isFalse => exact h.letters v l hl
  | revive id =>
    simp only [JobQueue.serve, revive]
    split
    case h_1 => exact h
    case h_2 letter _ =>
      exact ⟨hinsert (letter.job.revived now),
        fun v l hl => h.letters v l (Table.get?_of_erase hl)⟩
  | discard id =>
    simp only [JobQueue.serve, discard]
    split
    · exact ⟨h.jobs, fun v l hl => h.letters v l (Table.get?_of_erase hl)⟩
    · exact h

/-- What stands under the ids that a call does not name stays as it is. -/
theorem Filed.serve_of_ne (h : q.Filed) (now : Instant) {v : Uuid} (hv : call.id? = some v)
    (hu : u ≠ v) : (q.serve now call).2.jobs.get? u = q.jobs.get? u ∧
      (q.serve now call).2.deadLetters.get? u = q.deadLetters.get? u := by
  cases call with
  | claim => cases hv
  | enqueue job =>
    obtain rfl := Option.some.inj hv
    simp only [JobQueue.serve, enqueue]
    split
    · exact ⟨rfl, rfl⟩
    · exact ⟨Table.get?_insert_of_ne hu .., rfl⟩
  | update job =>
    obtain rfl := Option.some.inj hv
    simp only [JobQueue.serve, update]
    split
    · exact ⟨Table.get?_insert_of_ne hu .., rfl⟩
    · exact ⟨rfl, rfl⟩
  | deadLetter job reason =>
    obtain rfl := Option.some.inj hv
    exact ⟨Table.get?_erase_of_ne hu .., Table.get?_insert_of_ne hu ..⟩
  | revive id =>
    obtain rfl := Option.some.inj hv
    simp only [JobQueue.serve, revive]
    split
    case h_1 => exact ⟨rfl, rfl⟩
    case h_2 l hl =>
      have hne : u ≠ l.job.id := h.letters id l hl ▸ hu
      exact ⟨Table.get?_insert_of_ne hne .., Table.get?_erase_of_ne hu ..⟩
  | discard id =>
    obtain rfl := Option.some.inj hv
    simp only [JobQueue.serve, discard]
    split
    · exact ⟨rfl, Table.get?_erase_of_ne hu ..⟩
    · exact ⟨rfl, rfl⟩

/-- What a call does to the job that it names. -/
theorem Keeps.serve_self (h : q.Keeps u c) (hq : q.Filed) (hadmits : q.admits call = true)
    (hrespects : q.respects call = true) (now : Instant) (hu : call.id? = some u) (claimed : Bool) :
    (q.serve now call).2.Keeps u (c.next u now claimed call) := by
  obtain ⟨hjob, hletter⟩ := h
  have hlive : q.jobs.contains u = c.job?.isSome := by rw [Table.contains_eq, hjob]
  have hdead : q.deadLetters.contains u = c.letter?.isSome := by rw [Table.contains_eq, hletter]
  cases call with
  | claim => cases hu
  | enqueue job =>
    obtain rfl := Option.some.inj hu
    simp only [JobQueue.serve, enqueue, hlive]
    cases c with
    | absent =>
      rw [show Custody.next job.id now claimed .absent (.enqueue job) = .live job from if_pos rfl]
      exact ⟨Table.get?_insert_self .., hletter⟩
    | live old => exact ⟨hjob, hletter⟩
    | letter l =>
      rw [respects, hlive, hdead] at hrespects
      cases hrespects
  | update job =>
    obtain rfl := Option.some.inj hu
    simp only [JobQueue.serve, update, hlive]
    cases c with
    | live old =>
      rw [show Custody.next job.id now claimed (.live old) (.update job) = .live job from
        if_pos rfl]
      exact ⟨Table.get?_insert_self .., hletter⟩
    | absent | letter => exact ⟨hjob, hletter⟩
  | deadLetter job reason =>
    obtain rfl := Option.some.inj hu
    rw [admits, hlive] at hadmits
    cases c with
    | live old =>
      rw [show Custody.next job.id now claimed (.live old) (.deadLetter job reason) =
        .letter ⟨job.givenUp reason now, now, reason⟩ from if_pos rfl]
      exact ⟨Table.get?_erase_self .., Table.get?_insert_self ..⟩
    | absent | letter => cases hadmits
  | revive id =>
    obtain rfl := Option.some.inj hu
    simp only [JobQueue.serve, revive, hletter]
    cases c with
    | letter l =>
      obtain rfl := hq.letters _ l hletter
      rw [show Custody.next l.job.id now claimed (.letter l) (.revive l.job.id) =
        .live (l.job.revived now) from if_pos rfl]
      exact ⟨Table.get?_insert_self .., Table.get?_erase_self ..⟩
    | absent | live => exact ⟨hjob, hletter⟩
  | discard id =>
    obtain rfl := Option.some.inj hu
    simp only [JobQueue.serve, discard, hdead]
    cases c with
    | letter l =>
      rw [show Custody.next id now claimed (.letter l) (.discard id) = .absent from if_pos rfl]
      exact ⟨hjob, Table.get?_erase_self ..⟩
    | absent | live => exact ⟨hjob, hletter⟩

/-- A claim starts the job that it takes. -/
theorem Keeps.serve_claim (h : q.Keeps u c) (hq : q.Filed) (now : Instant) :
    (q.serve now .claim).2.Keeps u (c.next u now (q.picks now u) .claim) := by
  obtain ⟨hjob, hletter⟩ := h
  have hstays : c.next u now false .claim = c := by cases c <;> rfl
  simp only [JobQueue.serve, picks]
  rcases claim_cases hq.jobs now with ⟨hnone, -⟩ | ⟨job, hlive, -, hsome⟩
  · simp only [hnone, Option.any_none, hstays]
    exact ⟨hjob, hletter⟩
  · rw [hsome]
    by_cases hu : u = job.id
    · subst hu
      obtain rfl : c = .live job := by
        rw [hlive] at hjob
        cases c with
        | live old => rw [Option.some.inj hjob]
        | absent | letter => cases hjob
      have hpicked : (some (job.start now)).any (fun j => decide (j.id = job.id)) = true :=
        decide_eq_true rfl
      rw [hpicked]
      exact ⟨Table.get?_insert_self .., hletter⟩
    · have hpicked : (some (job.start now)).any (fun j => decide (j.id = u)) = false :=
        decide_eq_false fun e => hu e.symm
      rw [hpicked, hstays]
      exact ⟨(Table.get?_insert_of_ne hu ..).trans hjob, hletter⟩

/-- After a call that takes in no job under the id of a dead letter, the queue keeps under each id
what became of the job that it kept there. -/
theorem Keeps.serve (h : q.Keeps u c) (hq : q.Filed) (hadmits : q.admits call = true)
    (hrespects : q.respects call = true) (now : Instant) :
    (q.serve now call).2.Keeps u (c.next u now (q.picks now u) call) := by
  cases hid : call.id? with
  | none =>
    obtain rfl : call = .claim := by cases call <;> first | rfl | cases hid
    exact h.serve_claim hq now
  | some v =>
    by_cases hu : u = v
    · exact h.serve_self hq hadmits hrespects now (hu ▸ hid) _
    · obtain ⟨hjobs, hletters⟩ := hq.serve_of_ne now hid hu
      rw [Custody.next_of_ne hid hu]
      exact ⟨hjobs.trans h.job, hletters.trans h.letter⟩

/-- A job that is kept is not taken in once more. -/
theorem Keeps.refuses (h : q.Keeps u c) (hc : c ≠ .absent) {job : Job} (hid : job.id = u)
    (hrespects : q.respects (.enqueue job) = true) (now : Instant) :
    (q.serve now (.enqueue job)).1 = .error (.alreadyExists u) := by
  subst hid
  have hlive : q.jobs.contains job.id = true := by
    rw [respects, Table.contains_eq, Table.contains_eq, h.job, h.letter] at hrespects
    rw [Table.contains_eq, h.job]
    cases c with
    | absent => exact absurd rfl hc
    | live old => rfl
    | letter l => exact hrespects
  simp only [JobQueue.serve, enqueue, hlive, if_true, settled]

/-- A job that is taken in is live. -/
theorem Keeps.taken (h : q.Keeps u c) (hq : q.Filed) {job : Job} (hid : job.id = u)
    (hrespects : q.respects (.enqueue job) = true) (now : Instant)
    (htaken : (q.serve now (.enqueue job)).1 = .ok ()) :
    (q.serve now (.enqueue job)).2.Keeps u (.live job) := by
  have hnext := h.serve_self hq rfl hrespects now (congrArg some hid) false
  cases c with
  | absent =>
    rwa [show Custody.next u now false .absent (.enqueue job) = .live job from if_pos hid] at hnext
  | live | letter =>
    rw [h.refuses nofun hid hrespects now] at htaken
    cases htaken

/-- Taking in a job under the id of a dead letter puts the id into both tables. -/
theorem not_apart_of_not_respects (h : q.respects call = false) (now : Instant) :
    ¬ (q.serve now call).2.Apart := by
  cases call with
  | enqueue job =>
    obtain ⟨hfree, hdead⟩ := Bool.or_eq_false_iff.1 h
    obtain ⟨l, hl⟩ := Table.contains_iff.1 (by simpa using hdead)
    have hserve : (q.serve now (.enqueue job)).2 = { q with jobs := q.jobs.insert job.id job } := by
      simp only [JobQueue.serve, enqueue, hfree, Bool.false_eq_true, if_false, settled]
    intro hapart
    rw [hserve] at hapart
    rcases hapart job.id with hjob | hletter
    · exact Option.some_ne_none _ ((Table.get?_insert_self ..).symm.trans hjob)
    · exact Option.some_ne_none _ (hl.symm.trans hletter)
  | claim | update | deadLetter | revive | discard => cases h

/-! ## Runs -/

/-- What becomes of a job in the course of calls. Of the queue it is asked which jobs are
claimed. -/
def follow (q : JobQueue) (u : Uuid) (c : Custody) : List (Instant × QueueCall) → Custody
  | [] => c
  | (now, call) :: rest =>
    (q.serve now call).2.follow u (c.next u now (q.picks now u) call) rest

variable {calls : List (Instant × QueueCall)}

theorem Filed.run (h : q.Filed) (calls : List (Instant × QueueCall)) : (q.run calls).Filed := by
  induction calls generalizing q with
  | nil => exact h
  | cons step rest ih => exact ih (h.serve step.1 step.2)

theorem Keeps.run (h : q.Keeps u c) (hq : q.Filed) (hadmits : q.always admits calls = true)
    (hrespects : q.always respects calls = true) : (q.run calls).Keeps u (q.follow u c calls) := by
  induction calls generalizing q c with
  | nil => exact h
  | cons step rest ih =>
    obtain ⟨now, call⟩ := step
    obtain ⟨hcall, hadmits⟩ := Bool.and_eq_true_iff.1 hadmits
    obtain ⟨hfirst, hrespects⟩ := Bool.and_eq_true_iff.1 hrespects
    exact ih (h.serve hq hcall hfirst now) (hq.serve now call) hadmits hrespects

/-- A job that is there goes only by being discarded. -/
theorem Keeps.follow_ne_absent (h : q.Keeps u c) (hc : c ≠ .absent) (hq : q.Filed)
    (hadmits : q.always admits calls = true) (hrespects : q.always respects calls = true)
    (hspares : q.always (spares u) calls = true) : q.follow u c calls ≠ .absent := by
  induction calls generalizing q c with
  | nil => exact hc
  | cons step rest ih =>
    obtain ⟨now, call⟩ := step
    obtain ⟨hcall, hadmits⟩ := Bool.and_eq_true_iff.1 hadmits
    obtain ⟨hfirst, hrespects⟩ := Bool.and_eq_true_iff.1 hrespects
    obtain ⟨hspared, hspares⟩ := Bool.and_eq_true_iff.1 hspares
    refine ih (h.serve hq hcall hfirst now) (fun hgone => ?_) (hq.serve now call) hadmits hrespects
      hspares
    rcases Custody.next_eq_absent hgone with hc' | ⟨⟨l, rfl⟩, rfl⟩
    · exact hc hc'
    · have hdead : q.deadLetters.contains u = true := Table.contains_iff.2 ⟨l, h.letter⟩
      rw [spares, hdead] at hspared
      simp at hspared

/-- No id is in both tables after any of the calls iff none of them takes in a job under the id of a
dead letter. -/
theorem Apart.run_iff (h : q.Apart) (hq : q.Filed) (hadmits : q.always admits calls = true) :
    (∀ n, (q.run (calls.take n)).Apart) ↔ q.always respects calls = true := by
  constructor
  · intro hapart
    induction calls generalizing q with
    | nil => rfl
    | cons step rest ih =>
      obtain ⟨now, call⟩ := step
      obtain ⟨-, hadmits⟩ := Bool.and_eq_true_iff.1 hadmits
      have hrest := ih (hapart 1) (hq.serve now call) hadmits fun n => hapart (n + 1)
      refine Bool.and_eq_true_iff.2 ⟨?_, hrest⟩
      exact eq_true_of_ne_false fun hf => not_apart_of_not_respects hf now (hapart 1)
  · intro hrespects n u
    obtain ⟨c, hc⟩ := h.exists_keeps u
    rw [← List.take_append_drop n calls] at hadmits hrespects
    exact (hc.run hq (always_append.1 hadmits).1 (always_append.1 hrespects).1).apart

/-- In every run in which only live jobs are given up, no id is ever among the live jobs and the
dead letters both, iff no job is taken in under the id of a dead letter. In such a run a job that
was taken in stands in exactly one of the two tables as long as it is not discarded as a dead
letter: what stands there is what became of this very job, and no other one is taken in under its
id. -/
theorem run_conserved (calls : List (Instant × QueueCall))
    (hadmits : ({} : JobQueue).always admits calls = true) :
    ((∀ n, (run {} (calls.take n)).Apart) ↔ ({} : JobQueue).always respects calls = true) ∧
      (({} : JobQueue).always respects calls = true →
        ∀ before now job after, calls = before ++ (now, .enqueue job) :: after →
          ((run {} before).serve now (.enqueue job)).1 = .ok () →
          let q := ((run {} before).serve now (.enqueue job)).2
          q.always (spares job.id) after = true →
            q.follow job.id (.live job) after ≠ .absent ∧
              (run {} calls).Keeps job.id (q.follow job.id (.live job) after) ∧
              ∀ mid now other rest, after = mid ++ (now, .enqueue other) :: rest →
                other.id = job.id →
                  ((q.run mid).serve now (.enqueue other)).1 = .error (.alreadyExists job.id)) := by
  refine ⟨apart_empty.run_iff filed_empty hadmits, ?_⟩
  rintro hrespects before now job after rfl htaken q hspares
  obtain ⟨hbefore, hafter⟩ := always_append.1 hadmits
  obtain ⟨-, hafter⟩ := Bool.and_eq_true_iff.1 hafter
  obtain ⟨hrespected, hrest⟩ := always_append.1 hrespects
  obtain ⟨hfirst, hrest⟩ := Bool.and_eq_true_iff.1 hrest
  have hfiled := filed_empty.run before
  obtain ⟨c, hc⟩ := apart_empty.exists_keeps job.id
  have hkeeps : q.Keeps job.id (.live job) :=
    (hc.run filed_empty hbefore hrespected).taken hfiled rfl hfirst now htaken
  have hq : q.Filed := hfiled.serve now (.enqueue job)
  refine ⟨hkeeps.follow_ne_absent nofun hq hafter hrest hspares, ?_, ?_⟩
  · rw [run_append]
    exact hkeeps.run hq hafter hrest
  · rintro mid now' other rest rfl hid
    obtain ⟨hadmits, -⟩ := always_append.1 hafter
    obtain ⟨hrespects, hlast⟩ := always_append.1 hrest
    obtain ⟨hspares, -⟩ := always_append.1 hspares
    have hthere := hkeeps.follow_ne_absent nofun hq hadmits hrespects hspares
    exact (hkeeps.run hq hadmits hrespects).refuses hthere hid (Bool.and_eq_true_iff.1 hlast).1 now'

/-- A job with an id of its own. -/
def letterOf (text : String) : Job := .new (.ofNat 7) (.custom text) .null ⟨0, false⟩

/-- A job is claimed, given up, taken back and claimed again. While it is live, another one with its
id is refused. -/
def returned : List (Instant × QueueCall) :=
  [.enqueue (letterOf "first"), .claim, .deadLetter (letterOf "first") "lost", .revive (.ofNat 7),
    .enqueue (letterOf "second"), .claim].map (⟨0, false⟩, ·)

theorem run_conserved_returned :
    (run {} returned).Apart ∧
      ((run {} returned).jobs.get? (.ofNat 7)).map (fun j => (j.kind, j.status, j.attempt)) =
        some (.custom "first", .running, 1) := by
  obtain ⟨hapart, hkept⟩ := run_conserved returned (by decide +kernel)
  have hrespects : ({} : JobQueue).always respects returned = true := by decide +kernel
  obtain ⟨-, hkeeps, -⟩ :=
    hkept hrespects [] ⟨0, false⟩ (letterOf "first") _ rfl rfl (by decide +kernel)
  refine ⟨hapart.2 hrespects 6, ?_⟩
  rw [show Uuid.ofNat 7 = (letterOf "first").id from rfl, hkeeps.job]
  decide +kernel

/-- A job is given up, another one with its id is taken in, and the first one is taken back. -/
def usurped : List (Instant × QueueCall) :=
  [.enqueue (letterOf "first"), .deadLetter (letterOf "first") "lost", .enqueue (letterOf "second"),
    .revive (.ofNat 7)].map (⟨0, false⟩, ·)

/-- The second job is taken in although the first one is there as a dead letter. Then the first one
takes its place, and the second one is gone, although nothing was discarded. -/
theorem usurper_is_lost :
    ({} : JobQueue).always admits usurped = true ∧
      ((run {} (usurped.take 2)).serve ⟨0, false⟩ (.enqueue (letterOf "second"))).1 = .ok () ∧
      ¬ (run {} (usurped.take 3)).Apart ∧
      ({} : JobQueue).always (spares (.ofNat 7)) usurped = true ∧
      (run {} usurped).jobs.values.map (·.kind) = [.custom "first"] ∧
      (run {} usurped).deadLetters.isEmpty = true := by
  refine ⟨by decide +kernel, rfl, fun hapart => ?_, by decide +kernel, by decide +kernel,
    by decide +kernel⟩
  have hboth : (run {} (usurped.take 3)).jobs.contains (.ofNat 7) = true ∧
      (run {} (usurped.take 3)).deadLetters.contains (.ofNat 7) = true := by decide +kernel
  rcases hapart (.ofNat 7) with hnone | hnone
  · exact Bool.false_ne_true ((Table.not_contains_iff.2 hnone).symm.trans hboth.1)
  · exact Bool.false_ne_true ((Table.not_contains_iff.2 hnone).symm.trans hboth.2)

end JobQueue

end Lineage
