import Mathlib.Data.Prod.Lex
import Lineage.Proofs.Custody

/-!
# Claiming until nothing is left

Claims at one instant take the ready jobs one after the other, those first that have waited longest,
and then find nothing more. Of jobs that have waited equally long the claim takes the one that it
comes to first; here it may look at the live jobs in any order, another one each time.

* `JobQueue.rank`: what the order of claims goes by.
* `JobQueue.Claims`: claims at one instant, their answers, and the queue after them.
* `JobQueue.Drains`: the answers are ready jobs by ascending rank, each once, and nothing else
  changes.
* `JobQueue.run_drained`: so it is for every queue that calls lead to.
-/

namespace Lineage.JobQueue

variable {q q' : JobQueue} {now : Instant} {job : Job}

/-! ## Which job comes first -/

/-- What the order of claims goes by: the instant from which a job waits, then that of its
creation. -/
def rank (job : Job) : Lex (Instant × Instant) := toLex (dueSince job, job.created)

theorem precedes_iff {a b : Job} : precedes a b = true ↔ rank a < rank b := by
  simp [precedes, rank, Prod.Lex.toLex_lt_toLex]

theorem rank_foldl_le (rest : List Job) (best : Job) : ∀ j ∈ best :: rest,
    rank (rest.foldl (fun best j => if precedes j best then j else best) best) ≤ rank j := by
  induction rest generalizing best with
  | nil => simp
  | cons a rest ih =>
    rw [List.foldl_cons]
    have hfirst := ih (if precedes a best then a else best) _ List.mem_cons_self
    have hboth : rank (if precedes a best then a else best) ≤ rank best ∧
        rank (if precedes a best then a else best) ≤ rank a := by
      split
      case isTrue h => exact ⟨(precedes_iff.1 h).le, le_rfl⟩
      case isFalse h => exact ⟨le_rfl, not_lt.1 fun hlt => h (precedes_iff.2 hlt)⟩
    intro j hj
    rcases List.mem_cons.1 hj with rfl | hj
    · exact hfirst.trans hboth.1
    rcases List.mem_cons.1 hj with rfl | hj
    · exact hfirst.trans hboth.2
    · exact ih _ j (List.mem_cons_of_mem _ hj)

theorem rank_le_of_earliest? {l : List Job} (h : earliest? l = some job) :
    ∀ j ∈ l, rank job ≤ rank j := by
  cases l with
  | nil => cases h
  | cons best rest =>
    rw [← Option.some.inj h]
    exact rank_foldl_le rest best

/-! ## One claim -/

/-- A claim that looks at the live jobs in some order. -/
def claimFrom (q : JobQueue) (order : List Job) (now : Instant) : Option Job × JobQueue :=
  match earliest? (order.filter (isReady now)) with
  | some job => (some (job.start now), { q with jobs := q.jobs.insert job.id (job.start now) })
  | none => (none, q)

theorem claimFrom_values (q : JobQueue) (now : Instant) :
    q.claimFrom q.jobs.values now = q.claim now := rfl

/-- The queue after the claim of a job. -/
def started (q : JobQueue) (now : Instant) (job : Job) : JobQueue :=
  { q with jobs := q.jobs.insert job.id (job.start now) }

/-- A claim takes a ready job of the least rank, if there is a ready job. -/
theorem claimFrom_cases (hq : q.Keyed) (now : Instant) {order : List Job}
    (horder : order.Perm q.jobs.values) :
    (q.claimFrom order now = (none, q) ∧ q.ready now = ∅) ∨
      ∃ job, q.jobs.get? job.id = some job ∧ isReady now job = true ∧
        (∀ j, q.jobs.get? j.id = some j → isReady now j = true → rank job ≤ rank j) ∧
        q.claimFrom order now = (some (job.start now), q.started now job) := by
  unfold claimFrom
  rcases earliest?_cases hq now horder with ⟨he, hidle⟩ | ⟨job, he, hjob, hready⟩
  · rw [he]
    refine .inl ⟨rfl, Finset.eq_empty_of_forall_notMem fun u hu => ?_⟩
    obtain ⟨job, hjob, hready⟩ := mem_ready.1 hu
    rw [hidle u job hjob] at hready
    cases hready
  · rw [he]
    refine .inr ⟨job, hjob, hready, fun j hj hr => ?_, rfl⟩
    have hmem : j ∈ order := horder.mem_iff.2 (Table.mem_values.2 ⟨j.id, hj⟩)
    exact rank_le_of_earliest? he j (List.mem_filter.2 ⟨hmem, hr⟩)

theorem get?_started (u : Uuid) : (q.started now job).jobs.get? u =
    if u = job.id then some (job.start now) else q.jobs.get? u := Table.get?_insert ..

theorem Keyed.started (hq : q.Keyed) (now : Instant) (job : Job) : (q.started now job).Keyed := by
  intro u j hj
  rw [get?_started] at hj
  split at hj
  case isTrue hu => exact Option.some.inj hj ▸ hu.symm
  case isFalse => exact hq u j hj

/-- A job that was claimed is not ready any more; the others are as before. -/
theorem get?_of_ready_started {j : Job} (hj : (q.started now job).jobs.get? j.id = some j)
    (hready : isReady now j = true) : j.id ≠ job.id ∧ q.jobs.get? j.id = some j := by
  have hne : job.id ≠ j.id :=
    ne_id_of_ready ((get?_started job.id).trans (if_pos rfl)) rfl hj hready
  rw [get?_started, if_neg hne.symm] at hj
  exact ⟨hne.symm, hj⟩

theorem ready_started (hq : q.Keyed) :
    (q.started now job).ready now = (q.ready now).erase job.id := by
  ext u
  rw [Finset.mem_erase, mem_ready, mem_ready]
  constructor
  · rintro ⟨j, hj, hready⟩
    obtain rfl := hq.started now job u j hj
    obtain ⟨hne, hj⟩ := get?_of_ready_started hj hready
    exact ⟨hne, j, hj, hready⟩
  · rintro ⟨hne, j, hj, hready⟩
    exact ⟨j, ((get?_started u).trans (if_neg hne)).trans hj, hready⟩

/-! ## Claims one after the other -/

/-- Claims at one instant, each of which looks at the live jobs in an order of its own: what they
answer, and the queue after them. -/
inductive Claims (now : Instant) : JobQueue → List (Option Job) → JobQueue → Prop
  | none (q : JobQueue) : Claims now q [] q
  | next {q q' : JobQueue} {answers : List (Option Job)} (order : List Job) :
    order.Perm q.jobs.values → Claims now (q.claimFrom order now).2 answers q' →
    Claims now q ((q.claimFrom order now).1 :: answers) q'

/-- A number of claims, each in the order of the ids. -/
def claimEach (now : Instant) : Nat → JobQueue → List (Option Job) × JobQueue
  | 0, q => ([], q)
  | n + 1, q =>
    let rest := claimEach now n (q.claim now).2
    ((q.claim now).1 :: rest.1, rest.2)

theorem claims_claimEach (now : Instant) (n : Nat) (q : JobQueue) :
    (claimEach now n q).1.length = n ∧
      q.Claims now (claimEach now n q).1 (claimEach now n q).2 := by
  induction n generalizing q with
  | zero => exact ⟨rfl, .none q⟩
  | succ n ih =>
    obtain ⟨hlength, hclaims⟩ := ih (q.claim now).2
    rw [← claimFrom_values] at hlength hclaims
    rw [claimEach, ← claimFrom_values]
    exact ⟨congrArg Nat.succ hlength, .next q.jobs.values (.refl _) hclaims⟩

/-- Claims that are answered with some jobs of a queue, and leave it with these jobs started. -/
structure Drains (q : JobQueue) (now : Instant) (taken : List Job) (answers : List (Option Job))
    (q' : JobQueue) : Prop where
  ready : ∀ job ∈ taken, q.jobs.get? job.id = some job ∧ isReady now job = true
  once : (taken.map (·.id)).Nodup
  sorted : taken.Pairwise fun a b => rank a ≤ rank b
  /-- No claim is in vain as long as a job is ready. -/
  count : taken.length = min answers.length (q.ready now).card
  /-- The jobs come first, then there is nothing more. -/
  answers : answers = taken.map (fun job => some (job.start now)) ++
    List.replicate (answers.length - taken.length) none
  jobs : ∀ u, q'.jobs.get? u =
    if u ∈ taken.map (·.id) then (q.jobs.get? u).map (·.start now) else q.jobs.get? u
  letters : q'.deadLetters = q.deadLetters

namespace Drains

variable {taken : List Job} {answers : List (Option Job)}

theorem refl (q : JobQueue) (now : Instant) : q.Drains now [] [] q where
  ready _ hjob := absurd hjob List.not_mem_nil
  once := .nil
  sorted := .nil
  count := (Nat.zero_min _).symm
  answers := rfl
  jobs _ := (if_neg List.not_mem_nil).symm
  letters := rfl

/-- A claim in vain. -/
theorem idle (h : q.Drains now taken answers q') (hready : q.ready now = ∅) :
    q.Drains now taken (none :: answers) q' := by
  have hnone : taken.length = 0 := by rw [h.count, hready, Finset.card_empty, Nat.min_zero]
  obtain rfl := List.eq_nil_of_length_eq_zero hnone
  refine ⟨h.ready, h.once, h.sorted, ?_, ?_, h.jobs, h.letters⟩
  · rw [hready, Finset.card_empty, Nat.min_zero]
    rfl
  · exact congrArg (none :: ·) h.answers

/-- A claim that is answered with a job. -/
theorem take (hq : q.Keyed) (hjob : q.jobs.get? job.id = some job) (hready : isReady now job = true)
    (hleast : ∀ j, q.jobs.get? j.id = some j → isReady now j = true → rank job ≤ rank j)
    (h : (q.started now job).Drains now taken answers q') :
    q.Drains now (job :: taken) (some (job.start now) :: answers) q' := by
  have hothers : ∀ j ∈ taken, j.id ≠ job.id ∧ q.jobs.get? j.id = some j ∧ isReady now j = true := by
    intro j hj
    obtain ⟨hlive, hr⟩ := h.ready j hj
    obtain ⟨hne, hlive⟩ := get?_of_ready_started hlive hr
    exact ⟨hne, hlive, hr⟩
  have hfresh : job.id ∉ taken.map (·.id) := by
    intro hmem
    obtain ⟨j, hj, hid⟩ := List.mem_map.1 hmem
    exact (hothers j hj).1 hid
  have hmem : job.id ∈ q.ready now := mem_ready.2 ⟨job, hjob, hready⟩
  refine ⟨fun j hj => ?_, ?_, ?_, ?_, ?_, fun u => ?_, h.letters⟩
  · rcases List.mem_cons.1 hj with rfl | hj
    · exact ⟨hjob, hready⟩
    · exact (hothers j hj).2
  · exact List.nodup_cons.2 ⟨hfresh, h.once⟩
  · exact List.pairwise_cons.2
      ⟨fun j hj => hleast j (hothers j hj).2.1 (hothers j hj).2.2, h.sorted⟩
  · have hcard := Finset.card_erase_of_mem hmem
    have hpos := Finset.card_pos.2 ⟨_, hmem⟩
    have hcount := h.count
    rw [ready_started hq, hcard] at hcount
    simp only [List.length_cons]
    omega
  · rw [List.length_cons, List.length_cons, Nat.add_sub_add_right, List.map_cons, List.cons_append]
    exact congrArg (some (job.start now) :: ·) h.answers
  · rw [h.jobs, List.map_cons]
    by_cases hu : u = job.id
    · subst hu
      rw [if_neg hfresh, if_pos List.mem_cons_self, get?_started, if_pos rfl, hjob]
      rfl
    · rw [get?_started, if_neg hu]
      simp only [List.mem_cons, hu, false_or]

/-- With as many claims as there are ready jobs, each ready job is taken. -/
theorem complete (h : q.Drains now taken answers q')
    (henough : (q.ready now).card ≤ answers.length) {u : Uuid} (hjob : q.jobs.get? u = some job)
    (hready : isReady now job = true) : job ∈ taken := by
  have hsub : (taken.map (·.id)).toFinset ⊆ q.ready now := by
    intro v hv
    obtain ⟨j, hj, rfl⟩ := List.mem_map.1 (List.mem_toFinset.1 hv)
    exact mem_ready.2 ⟨j, h.ready j hj⟩
  have hcard : (q.ready now).card ≤ (taken.map (·.id)).toFinset.card := by
    rw [List.toFinset_card_of_nodup h.once, List.length_map, h.count, Nat.min_eq_right henough]
  have hmem : u ∈ (taken.map (·.id)).toFinset := by
    rw [Finset.eq_of_subset_of_card_le hsub hcard]
    exact mem_ready.2 ⟨job, hjob, hready⟩
  obtain ⟨j, hj, rfl⟩ := List.mem_map.1 (List.mem_toFinset.1 hmem)
  obtain rfl := Option.some.inj ((h.ready j hj).1.symm.trans hjob)
  exact hj

end Drains

/-- Claims take ready jobs by ascending rank. -/
theorem Claims.drains {answers : List (Option Job)} (h : q.Claims now answers q') (hq : q.Keyed) :
    ∃ taken, q.Drains now taken answers q' := by
  induction h with
  | none q => exact ⟨[], .refl q now⟩
  | next order horder hrest ih =>
    rcases claimFrom_cases hq now horder with ⟨he, hready⟩ | ⟨job, hjob, hready, hleast, he⟩
    · rw [he] at ih ⊢
      obtain ⟨taken, h⟩ := ih hq
      exact ⟨taken, h.idle hready⟩
    · rw [he] at ih ⊢
      obtain ⟨taken, h⟩ := ih (hq.started now job)
      exact ⟨job :: taken, h.take hq hjob hready hleast⟩

/-- Claims at one instant on a queue that calls have led to take the ready jobs by ascending rank,
each once, and start them; when all are taken they find nothing more. The other live jobs and all
dead letters stay. This holds in whatever order each claim looks at the live jobs; by their ids is
one of them. The attempts of a job have to be fewer than can be counted. -/
theorem run_drained (calls : List (Instant × QueueCall)) (now : Instant)
    (hcounted : ∀ u job, (run {} calls).jobs.get? u = some job →
      job.attempt.toNat + 1 < UInt32.size) :
    let q := run {} calls
    (∀ n, (claimEach now n q).1.length = n ∧
        q.Claims now (claimEach now n q).1 (claimEach now n q).2) ∧
      ∀ answers q', q.Claims now answers q' → ∃ taken, q.Drains now taken answers q' ∧
        (∀ job ∈ taken, (job.start now).status = .running ∧
          (job.start now).attempt.toNat = job.attempt.toNat + 1) ∧
        ((q.ready now).card ≤ answers.length → ∀ u job, q.jobs.get? u = some job →
          isReady now job = true → job ∈ taken) := by
  intro q
  have hq : q.Keyed := (filed_empty.run calls).jobs
  refine ⟨fun n => claims_claimEach now n q, fun answers q' hclaims => ?_⟩
  obtain ⟨taken, hdrains⟩ := hclaims.drains hq
  refine ⟨taken, hdrains, fun job hjob => ⟨rfl, ?_⟩, fun henough u job => hdrains.complete henough⟩
  exact Job.toNat_attempt_start now (hcounted job.id job (hdrains.ready job hjob).1)

/-- Two jobs that wait from the same instant, the second of which was created first, one that waits
from a time after the end of a leap second, one from within it, one that waits for later, and one
that was claimed already. -/
def staggered : List (Instant × QueueCall) :=
  let job (id created : Nat) : Job := .new (.ofNat id) (.custom "mail") .null ⟨created, false⟩
  [.enqueue (job 6 1), .claim, .enqueue (job 1 5),
    .enqueue { job 2 3 with scheduled := some ⟨5, false⟩ },
    .enqueue { job 3 2 with scheduled := some ⟨1100000000, false⟩ },
    .enqueue { job 4 2 with scheduled := some ⟨1900000000, true⟩ },
    .enqueue { job 5 2 with scheduled := some ⟨2000000000, false⟩ }].map (⟨6, false⟩, ·)

theorem run_drained_staggered :
    let q := run {} staggered
    let drained := claimEach ⟨1200000000, false⟩ 5 q
    ∃ taken, q.Drains ⟨1200000000, false⟩ taken drained.1 drained.2 ∧
      taken.map (·.id) = [.ofNat 2, .ofNat 1, .ofNat 4, .ofNat 3] := by
  intro q drained
  have hcounted : ∀ job ∈ q.jobs.values, job.attempt.toNat + 1 < UInt32.size := by decide +kernel
  obtain ⟨heach, hall⟩ := run_drained staggered ⟨1200000000, false⟩
    fun u job hjob => hcounted job (Table.mem_values.2 ⟨u, hjob⟩)
  obtain ⟨taken, hdrains, -⟩ := hall _ _ (heach 5).2
  have hids : drained.1.filterMap (Option.map Job.id) = taken.map (·.id) := by
    simpa [Job.start] using congrArg (List.filterMap (Option.map Job.id)) hdrains.answers
  exact ⟨taken, hdrains, hids.symm.trans (by decide +kernel)⟩

end Lineage.JobQueue
