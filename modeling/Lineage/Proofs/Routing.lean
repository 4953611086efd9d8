import Lineage.Proofs.Queue

/-!
# Purges reach their own hierarchy

Hierarchies of several kinds share one queue and one executor. A purge finds its hierarchy through
the route in its kind and its node through the id in its payload; both are written once, when the
node is archived, and nothing that happens to the job in the queue changes them.

* `Site`: hierarchies of all kinds. `Site.set` replaces one.
* `Registration`, `crew`: what is registered with an executor.
* `Executor.handle_crew`: the handler of a purge is that of its hierarchy, whatever other patterns
  are registered.
* `Installation`, `Happening`: a site with its queue and its clock, and what may happen next.
* `JobQueue.Stems`: every job stems from one of the happenings; all that happens keeps this.
* `Installation.run_routed`: the job of an archiving purges the node in its hierarchy and leaves the
  others alone.
-/

namespace Lineage

/-! ## Sites -/

/-- Hierarchies of all kinds, and what else there is. -/
structure Site (τ : Type) where
  hierarchy : (k : Kind) → Hierarchy k
  rest : τ

namespace Site

variable {τ : Type} {k k' : Kind}

/-- The site with another hierarchy of a kind. -/
def set (k : Kind) (h : Hierarchy k) (s : Site τ) : Site τ :=
  { s with hierarchy := Function.update s.hierarchy k h }

@[simp] theorem set_self (h : Hierarchy k) (s : Site τ) : (s.set k h).hierarchy k = h :=
  Function.update_self ..

theorem set_of_ne (hk : k' ≠ k) (h : Hierarchy k) (s : Site τ) :
    (s.set k h).hierarchy k' = s.hierarchy k' := Function.update_of_ne hk ..

end Site

/-! ## Registrations -/

/-- What is registered with an executor. -/
inductive Registration (τ : Type)
  /-- The purges of the hierarchy of a kind. -/
  | purges (k : Kind)
  /-- Any other handler, under a pattern. -/
  | other (pattern : String) (handler : Handler (Site τ))

theorem JobKind.purgeRoute_injective : Function.Injective purgeRoute :=
  fun _ _ h => String.append_left_inj _ |>.1 h

namespace Executor

section Registered

variable {σ : Type} {x : Executor σ} {pattern p : String} {h : Handler σ}

theorem registered?_register :
    (x.register pattern h).registered? p = if p = pattern then some h else x.registered? p := by
  cases hany : x.handlers.any fun e => e.1 == pattern with
  | false =>
    simp only [register, registered?, hany, Bool.false_eq_true, if_false, List.find?_append]
    split
    case isTrue hp =>
      subst hp
      have hnone : x.handlers.find? (fun e => e.1 == p) = none :=
        List.find?_eq_none.2 fun e he => by simpa using List.any_eq_false.1 hany e he
      simp [hnone]
    case isFalse hp =>
      simp [Ne.symm hp]
  | true =>
    have hkey : (fun e : String × Handler σ => e.1 == p) ∘
        (fun e => if e.1 == pattern then (pattern, h) else e) = fun e => e.1 == p := by
      funext e
      by_cases he : e.1 = pattern <;> simp [he]
    simp only [register, registered?, hany, if_true, List.find?_map, hkey]
    split
    case isTrue hp =>
      subst hp
      obtain ⟨e, he⟩ := Option.isSome_iff_exists.1 (List.find?_isSome.2 (List.any_eq_true.1 hany))
      have hep : e.1 = p := by simpa using List.find?_some he
      simp [he, hep]
    case isFalse hp =>
      cases he : x.handlers.find? fun e => e.1 == p with
      | none => rfl
      | some e =>
        have hep : e.1 = p := by simpa using List.find?_some he
        simp [hep, hp]

end Registered

variable {τ : Type} {k : Kind}

/-- The executor with one more registration. -/
def join (x : Executor (Site τ)) : Registration τ → Executor (Site τ)
  | .purges k => x.registerPurge (fun s => s.hierarchy k) (Site.set k)
  | .other pattern handler => x.register pattern handler

/-- An executor with registrations that were made one after the other. -/
def crew (registrations : List (Registration τ)) : Executor (Site τ) :=
  registrations.foldl join {}

/-- The handler of the purges of a hierarchy. -/
def purges (k : Kind) : Handler (Site τ) :=
  Hierarchy.purgeHandler (fun s => s.hierarchy k) (Site.set k)

/-- A registration under another pattern leaves the handler of the purges in place. -/
theorem registered?_join {x : Executor (Site τ)} {r : Registration τ}
    (hother : ∀ p h, r = .other p h → p ≠ JobKind.purgeRoute k.name)
    (hx : r = .purges k ∨ x.registered? (JobKind.purgeRoute k.name) = some (purges k)) :
    (x.join r).registered? (JobKind.purgeRoute k.name) = some (purges k) := by
  cases r with
  | purges k' =>
    rw [join, registerPurge, registered?_register]
    split
    case isTrue hroute =>
      have hname : k.name = k'.name := JobKind.purgeRoute_injective hroute
      obtain rfl : k = k' := by cases k; cases k'; exact congrArg Kind.mk hname
      rfl
    case isFalse hroute =>
      refine hx.resolve_left fun h => hroute ?_
      cases h
      rfl
  | other pattern handler =>
    rw [join, registered?_register, if_neg (hother pattern handler rfl).symm]
    exact hx.resolve_left fun h => by cases h

theorem registered?_crew {registrations : List (Registration τ)}
    (hothers : ∀ p h, .other p h ∈ registrations → p ≠ JobKind.purgeRoute k.name)
    (hk : .purges k ∈ registrations) :
    (crew registrations).registered? (JobKind.purgeRoute k.name) = some (purges k) := by
  suffices h : ∀ x : Executor (Site τ),
      .purges k ∈ registrations ∨
        x.registered? (JobKind.purgeRoute k.name) = some (purges k) →
      (registrations.foldl join x).registered? (JobKind.purgeRoute k.name) = some (purges k) from
    h {} (.inl hk)
  clear hk
  induction registrations with
  | nil => exact fun x hx => hx.resolve_left List.not_mem_nil
  | cons r rest ih =>
    intro x hx
    refine ih (fun p h hmem => hothers p h (List.mem_cons_of_mem _ hmem)) (x.join r) ?_
    have hr : ∀ p h, r = .other p h → p ≠ JobKind.purgeRoute k.name :=
      fun p h e => hothers p h (e ▸ List.mem_cons_self)
    rcases hx with hmem | hx
    · rcases List.mem_cons.1 hmem with he | hmem
      · exact .inr (registered?_join hr (.inl he.symm))
      · exact .inl hmem
    · exact .inr (registered?_join hr (.inr hx))

/-- A purge is handled by the purges of its hierarchy: its route is looked for first, before any
prefix and before the pattern for any kind. -/
theorem handle_crew {registrations : List (Registration τ)}
    (hothers : ∀ p h, .other p h ∈ registrations → p ≠ JobKind.purgeRoute k.name)
    (hk : .purges k ∈ registrations) {job : Job} (hkind : job.kind = .purgeOf k.name)
    (s : Site τ) : (crew registrations).handle job s = purges k job s := by
  have hhandler : (crew registrations).handler? job.kind = some (purges k) := by
    rw [handler?, hkind, JobKind.purgeOf, JobKind.typeName, registered?_crew hothers hk]
  rw [handle, hhandler]

end Executor

/-! ## What jobs are about -/

/-- What an attempt leaves as it is. -/
def Job.task (job : Job) : Uuid × JobKind × Json := (job.id, job.kind, job.payload)

namespace JobQueue

/-- Every job and every dead letter stands at its id and is about one of some tasks. -/
structure Stems (q : JobQueue) (tasks : List (Uuid × JobKind × Json)) : Prop where
  live : ∀ u job, q.jobs.get? u = some job → job.id = u ∧ job.task ∈ tasks
  letter : ∀ u letter, q.deadLetters.get? u = some letter →
    letter.job.id = u ∧ letter.job.task ∈ tasks

namespace Stems

variable {q q' : JobQueue} {tasks : List (Uuid × JobKind × Json)} {job : Job}

theorem keyed (h : q.Stems tasks) : q.Keyed := fun u job hjob => (h.live u job hjob).1

theorem mono {tasks' : List (Uuid × JobKind × Json)} (h : q.Stems tasks) (hsub : tasks ⊆ tasks') :
    q.Stems tasks' where
  live u job hjob := (h.live u job hjob).imp_right (@hsub _)
  letter u letter hletter := (h.letter u letter hletter).imp_right (@hsub _)

theorem insert (h : q.Stems tasks) (job : Job) (hjob : job.task ∈ tasks) :
    Stems { q with jobs := q.jobs.insert job.id job } tasks where
  live u job' hjob' := by
    have hjob' := (Table.get?_insert ..).symm.trans hjob'
    split at hjob'
    case isTrue hu =>
      obtain rfl := Option.some.inj hjob'
      exact ⟨hu.symm, hjob⟩
    case isFalse => exact h.live u job' hjob'
  letter := h.letter

theorem forget (h : q.Stems tasks) (u : Uuid) :
    Stems { q with deadLetters := q.deadLetters.erase u } tasks where
  live := h.live
  letter v letter hletter := by
    have hletter := (Table.get?_erase ..).symm.trans hletter
    split at hletter
    case isTrue => cases hletter
    case isFalse => exact h.letter v letter hletter

theorem deadLetter (h : q.Stems tasks) (hjob : job.task ∈ tasks) (reason : String)
    (now : Instant) : (q.deadLetter job reason now).Stems tasks where
  live u job' hjob' := by
    have hjob' := (Table.get?_erase ..).symm.trans hjob'
    split at hjob'
    case isTrue => cases hjob'
    case isFalse => exact h.live u job' hjob'
  letter u letter hletter := by
    have hletter := (Table.get?_insert ..).symm.trans hletter
    split at hletter
    case isTrue hu =>
      obtain rfl := Option.some.inj hletter
      exact ⟨hu.symm, hjob⟩
    case isFalse => exact h.letter u letter hletter

theorem ends {now : Instant} {result : JobResult} (h : q.Stems tasks) (hjob : job.task ∈ tasks)
    (hends : q.Ends now job result q') : q'.Stems tasks := by
  cases hends with
  | completed => exact h.insert (job.complete now) hjob
  | postponed error due => exact h.insert (job.postponed error due now) hjob
  | givenUp error => exact h.deadLetter hjob error now
  | aborted => exact h

/-- The claimed job is about one of the tasks as well. -/
theorem runNext {σ : Type} {x : Executor σ} (hx : x.gate = {}) (h : q.Stems tasks)
    (now : Instant) (world : σ) : (x.runNext now q world).2.1.Stems tasks := by
  rcases Executor.runNext_ends hx h.keyed now world with
    ⟨-, hidle, -⟩ | ⟨job, -, hjob, -, -, hends⟩
  · rw [hidle]
    exact h
  · have htask : (job.start now).task ∈ tasks := (h.live job.id job hjob).2
    exact (h.insert (job.start now) htask).ends htask hends

theorem claim (h : q.Stems tasks) {now : Instant} (hclaim : (q.claim now).1 = some job) :
    job.task ∈ tasks := by
  rcases JobQueue.claim_cases h.keyed now with
    ⟨hnone, -⟩ | ⟨job', hjob', -, hsome⟩
  · rw [hnone] at hclaim
    cases hclaim
  · rw [hsome] at hclaim
    obtain rfl := Option.some.inj hclaim
    exact (h.live _ job' hjob').2

end Stems

end JobQueue

namespace Hierarchy

variable {k : Kind}

/-- An archiving asks the scheduler once at most. -/
theorem archiveBy_jobs {σ : Type} (h : Hierarchy k)
    (schedule : Instant → σ → Except QueueError Unit × σ) (jobs : σ) (now : Instant)
    (id : NodeId k) : (h.archiveBy schedule jobs now id).2.2 = jobs ∨
      ∃ due, (h.archiveBy schedule jobs now id).2.2 = (schedule due jobs).2 := by
  unfold archiveBy
  split
  case h_1 => exact .inl rfl
  split
  case h_1 => exact .inl rfl
  split
  case h_1 => exact .inl rfl
  split
  case h_1 => exact .inl rfl
  case h_2 due _ =>
    refine .inr ⟨due, ?_⟩
    split
    case h_1 hs => rw [hs]
    case h_2 hs =>
      rw [hs]
      split <;> rfl

/-- An archiving puts at most one job into the queue: the purge of its node. -/
theorem archive_queue (h : Hierarchy k) (scheduler : PurgeScheduler) (q : JobQueue) (now : Instant)
    (u : Uuid) (id : NodeId k) : (h.archive scheduler q now u id).2.2 = q ∨
      ∃ job : Job, job.task = (u, .purgeOf k.name, PurgeScheduler.payload id.toInt) ∧
        (h.archive scheduler q now u id).2.2 = { q with jobs := q.jobs.insert job.id job } := by
  rcases h.archiveBy_jobs (fun due => scheduler.request k.name id.toInt due u now) q now id with
    hq | ⟨due, hq⟩
  · exact .inl hq
  rw [archive, hq]
  rcases scheduler.request_cases k.name id.toInt due u now q with
    ⟨e, hrequest⟩ | ⟨job, rfl, -, hjob, hrequest⟩ <;> rw [hrequest]
  · exact .inl rfl
  · exact .inr ⟨job, by rw [Job.task, hjob.kind, hjob.payload], rfl⟩

/-- What a purge reports. -/
def purgeReport : Except (HierarchyError k) PurgeOutcome → JobResult
  | .ok _ => .success
  | .error e => .failure e.message

theorem purgeHandler_eq {σ : Type} (get : σ → Hierarchy k) (set : Hierarchy k → σ → σ) {job : Job}
    {id : NodeId k} (hid : purgeTarget? job.payload = some id) (world : σ) :
    purgeHandler get set job world =
      (purgeReport ((get world).purge id).1, set ((get world).purge id).2 world) := by
  simp only [purgeHandler, runPurge, hid]
  rcases (get world).purge id with ⟨_ | _, _⟩ <;> rfl

end Hierarchy

/-! ## Happenings -/

/-- A site, the queue that its hierarchies share, and the clock. -/
structure Installation (τ : Type) where
  site : Site τ
  queue : JobQueue := {}
  now : Instant

/-- What happens next. -/
inductive Happening (τ : Type)
  | archive (k : Kind) (scheduler : PurgeScheduler) (job : Uuid) (id : NodeId k)
  /-- Anything else that is done to the site. -/
  | change (f : Site τ → Site τ)
  /-- Any other job comes in. -/
  | enqueue (job : Job)
  | revive (id : Uuid)
  | discard (id : Uuid)
  /-- The clock moves on to an instant, unless that is over. -/
  | wait (t : Instant)
  /-- A run of an executor with some handlers. -/
  | runNext (handlers : List (String × Handler (Site τ)))

/-- The task that comes in. -/
def Happening.tasks {τ : Type} : Happening τ → List (Uuid × JobKind × Json)
  | .archive k _ u id => [(u, .purgeOf k.name, PurgeScheduler.payload id.toInt)]
  | .enqueue job => [job.task]
  | _ => []

namespace Installation

variable {τ : Type}

/-- What is after a happening. -/
def step (w : Installation τ) : Happening τ → Installation τ
  | .archive k scheduler u id =>
    let r := (w.site.hierarchy k).archive scheduler w.queue w.now u id
    { w with site := w.site.set k r.2.1, queue := r.2.2 }
  | .change f => { w with site := f w.site }
  | .enqueue job =>
    match w.queue.enqueue job with
    | .ok q => { w with queue := q }
    | .error _ => w
  | .revive id =>
    match w.queue.revive id w.now with
    | .ok (_, q) => { w with queue := q }
    | .error _ => w
  | .discard id =>
    match w.queue.discard id with
    | .ok q => { w with queue := q }
    | .error _ => w
  | .wait t => { w with now := max w.now t }
  | .runNext handlers =>
    let x : Executor (Site τ) := { handlers }
    let r := x.runNext w.now w.queue w.site
    { w with queue := r.2.1, site := r.2.2 }

/-- What is after some happenings. -/
def run (w : Installation τ) (happenings : List (Happening τ)) : Installation τ :=
  happenings.foldl step w

variable {w : Installation τ} {tasks : List (Uuid × JobKind × Json)}

/-- After a happening every job is about a task that was there before or came in. -/
theorem stems_step (hw : w.queue.Stems tasks) (x : Happening τ) :
    (w.step x).queue.Stems (tasks ++ x.tasks) := by
  have hold : w.queue.Stems (tasks ++ x.tasks) := hw.mono (List.subset_append_left ..)
  cases x with
  | archive k scheduler u id =>
    rcases (w.site.hierarchy k).archive_queue scheduler w.queue w.now u id with
      hq | ⟨job, htask, hq⟩ <;> rw [step, hq]
    · exact hold
    · exact hold.insert job (htask ▸ List.mem_append_right _ List.mem_cons_self)
  | change f => exact hold
  | enqueue job =>
    rw [step, JobQueue.enqueue]
    cases w.queue.jobs.contains job.id with
    | true => exact hold
    | false => exact hold.insert job (List.mem_append_right _ List.mem_cons_self)
  | revive id =>
    rw [step, JobQueue.revive]
    cases hletter : w.queue.deadLetters.get? id with
    | none => exact hold
    | some letter =>
      let revived : Job := { letter.job with
        status := .pending, attempt := 0, scheduled := none, updated := w.now }
      exact (hold.insert revived (hold.letter id letter hletter).2).forget id
  | discard id =>
    rw [step, JobQueue.discard]
    cases w.queue.deadLetters.contains id with
    | true => exact hold.forget id
    | false => exact hold
  | wait t => exact hold
  | runNext handlers => exact hold.runNext rfl w.now w.site

theorem stems_run (hw : w.queue.Stems tasks) (happenings : List (Happening τ)) :
    (w.run happenings).queue.Stems (tasks ++ happenings.flatMap Happening.tasks) := by
  induction happenings generalizing w tasks with
  | nil => exact hw.mono (List.subset_append_left ..)
  | cons x rest ih =>
    rw [List.flatMap_cons, ← List.append_assoc]
    exact ih (stems_step hw x)

/-- The state before anything happened. -/
def start (site : Site τ) (now : Instant) : Installation τ := { site, now }

theorem start_stems (site : Site τ) (now : Instant) : (start site now).queue.Stems [] :=
  ⟨fun _ _ h => (nomatch h), fun _ _ h => (nomatch h)⟩

/-- The job that an archiving put into the queue purges the node of that id in the hierarchy in
which it was archived, and leaves all others as they are: whatever happens between the archiving and
the attempt, and whatever handlers are registered beside those of the purges, as long as they stand
under other patterns than the routes of the purges. Every job comes in with an id of its own. -/
theorem run_routed (site : Site τ) (now : Instant) (happenings : List (Happening τ))
    (hfresh : ((happenings.flatMap Happening.tasks).map (·.1)).Nodup)
    (registrations : List (Registration τ))
    (hothers : ∀ k, .purges k ∈ registrations →
      ∀ p h, .other p h ∈ registrations → p ≠ JobKind.purgeRoute k.name)
    (k : Kind) (hk : .purges k ∈ registrations) (scheduler : PurgeScheduler) (u : Uuid)
    (id : NodeId k) (harchive : .archive k scheduler u id ∈ happenings) :
    let w := (start site now).run happenings
    let x := Executor.crew registrations
    let purge := (w.site.hierarchy k).purge id
    ∀ job, (w.queue.claim w.now).1 = some job → job.id = u →
      x.handle job w.site = (Hierarchy.purgeReport purge.1, w.site.set k purge.2) ∧
        (w.step (.runNext x.handlers)).site.hierarchy k = purge.2 ∧
        (∀ k', k' ≠ k → (w.step (.runNext x.handlers)).site.hierarchy k' = w.site.hierarchy k') ∧
        (w.step (.runNext x.handlers)).site.rest = w.site.rest := by
  intro w x purge job hclaim hu
  have hw : w.queue.Stems (happenings.flatMap Happening.tasks) :=
    stems_run (start_stems site now) happenings
  have hmem : (u, .purgeOf k.name, PurgeScheduler.payload id.toInt) ∈
      happenings.flatMap Happening.tasks :=
    List.mem_flatMap.2 ⟨_, harchive, List.mem_cons_self⟩
  have htask : job.task = (u, .purgeOf k.name, PurgeScheduler.payload id.toInt) :=
    List.inj_on_of_nodup_map hfresh (hw.claim hclaim) hmem hu
  obtain ⟨-, hkind, hpayload⟩ : job.id = u ∧ job.kind = .purgeOf k.name ∧
      job.payload = PurgeScheduler.payload id.toInt := by simpa [Job.task] using htask
  have hhandle : x.handle job w.site = (Hierarchy.purgeReport purge.1, w.site.set k purge.2) := by
    rw [Executor.handle_crew (hothers k hk) hk hkind]
    exact Hierarchy.purgeHandler_eq _ _ (hpayload ▸ Hierarchy.purgeTarget?_payload id) w.site
  have hsite : (w.step (.runNext x.handlers)).site = w.site.set k purge.2 := by
    rcases Executor.runNext_ends (x := { handlers := x.handlers }) rfl hw.keyed w.now w.site with
      ⟨hnone, -⟩ | ⟨job', hsome, -, -, hworld, -⟩
    · rw [hnone] at hclaim
      cases hclaim
    · obtain rfl := Option.some.inj (hsome.symm.trans hclaim)
      exact hworld.trans (congrArg Prod.snd hhandle)
  rw [hsite]
  exact ⟨hhandle, Site.set_self .., fun k' hk' => Site.set_of_ne hk' .., rfl⟩

/-- Purges of two kinds, one name a prefix of the other, among handlers that would wipe everything
and whose patterns fit as well. -/
def staff : List (Registration Unit) :=
  let wipe : Handler (Site Unit) := fun _ _ => (.success, ⟨fun _ => { cache := .memory {} }, ()⟩)
  [.other "*" wipe, .other "ta.*" wipe, .purges ⟨"tag"⟩, .purges ⟨"ta"⟩, .other "tag.*" wipe]

/-- In both hierarchies the node with the least of all ids is archived. -/
def twins : List (Happening Unit) :=
  let add (k : Kind) : Happening Unit := .change fun s =>
    s.set k ((s.hierarchy k).add 0 { id := some ⟨.minValue⟩, code := "a", name := "A" }).2
  [add ⟨"tag"⟩, add ⟨"ta"⟩, .archive ⟨"tag"⟩ {} (.ofNat 0) ⟨.minValue⟩,
    .archive ⟨"ta"⟩ {} (.ofNat 1) ⟨.minValue⟩, .wait ⟨1296000 * nanosPerSecond, false⟩]

/-- The first purge removes one of the two nodes. -/
theorem run_routed_twins :
    let w := (start ⟨fun _ => { cache := .memory {} }, ()⟩ ⟨0, false⟩).run twins
    let next := w.step (.runNext (Executor.crew staff).handlers)
    (next.site.hierarchy ⟨"tag"⟩).store.contents.archived.contains ⟨.minValue⟩ = false ∧
      (next.site.hierarchy ⟨"ta"⟩).store.contents.archived.contains ⟨.minValue⟩ = true := by
  intro w next
  have hclaim : ((w.queue.claim w.now).1.map (·.id)) = some (.ofNat 0) := by decide +kernel
  obtain ⟨job, hjob, hid⟩ := Option.map_eq_some_iff.1 hclaim
  have hothers : ∀ k, .purges k ∈ staff →
      ∀ p h, .other p h ∈ staff → p ≠ JobKind.purgeRoute k.name := by
    intro k hk p h hp
    simp only [staff, List.mem_cons, reduceCtorEq, Registration.purges.injEq,
      Registration.other.injEq, List.not_mem_nil, or_false, false_or] at hk hp
    rcases hk with rfl | rfl <;> rcases hp with ⟨rfl, -⟩ | ⟨rfl, -⟩ | ⟨rfl, -⟩ <;> decide
  obtain ⟨-, hown, hother, -⟩ := run_routed ⟨fun _ => { cache := .memory {} }, ()⟩ ⟨0, false⟩ twins
    (by decide +kernel) staff hothers ⟨"tag"⟩ (by simp [staff]) {} (.ofNat 0) ⟨.minValue⟩
    (by simp [twins]) job hjob hid
  rw [hown, hother ⟨"ta"⟩ (by decide)]
  constructor <;> decide +kernel

end Installation

end Lineage
