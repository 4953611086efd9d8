import Lineage.Proofs.Coherence
import Lineage.Proofs.Grace
import Lineage.Proofs.Releases

/-!
# No archived node is forgotten

A node that is archived is either waited for by a purge or was found in use by one. Purges are not
taken back, so several may wait for one node, and a purge may come from an archiving that is long
over; whatever purge is carried out, it either removes the node or finds it in use.

* `Watch`, `Turn`: a hierarchy with its queue, its clock and the registry of consumers, and what may
  happen next.
* `Watch.Remembered`: a purge of the node waits, or one found it in use since it was archived.
* `Watch.Retentive`: every archived node is remembered; every turn keeps this
  (`Watch.Retentive.step`).
* `Watch.run_remembered`: so does every run.
-/

namespace Lineage

variable {k : Kind}

/-! ## Turns -/

/-- What happened to a node that bears on its purge. -/
inductive Note (k : Kind)
  | archived (id : NodeId k)
  /-- A run of the executor left the node in the archive because it is in use. -/
  | foundInUse (id : NodeId k)
  deriving DecidableEq

/-- A hierarchy whose nodes are guarded by a registry, with its queue and its clock. -/
structure Watch (k : Kind) where
  timeline : Timeline k
  registry : Registry k := {}
  /-- What happened, the latest first. -/
  notes : List (Note k) := []

/-- What happens next. -/
inductive Turn (k : Kind)
  | serve (env : Surroundings k) (op : Operation k)
  /-- A lookup of a node. A listing looks its nodes up one after the other. -/
  | find (key : Key k)
  | attach (id : NodeId k) (consumer : Consumer)
  | release (id : NodeId k) (code : String)
  /-- The clock moves on to an instant, unless that is over. -/
  | wait (t : Instant)
  /-- A run of the executor. -/
  | runNext

/-- Whether a node is to be archived. -/
def Turn.isArchiving : Turn k → Bool
  | .serve _ (.archive _) => true
  | _ => false

namespace Watch

/-- Surroundings in which the registry guards the nodes. -/
def guarded (w : Watch k) (env : Surroundings k) : Surroundings k :=
  { env with guard := .registry, registry := w.registry }

/-- The node that an archiving put into the archive. -/
def archives? (w : Watch k) (env : Surroundings k) (id : NodeId k) : Option (NodeId k) :=
  let t := w.timeline
  let env := w.guarded env
  let r := (t.hierarchy.within env).archive env.scheduler t.queue t.now env.job id
  if r.1.isOk then some id else none

/-- The node of the purge that a run of the executor carries out. -/
def purges? (w : Watch k) : Option (NodeId k) :=
  (w.timeline.queue.claim w.timeline.now).1 >>= fun job => Hierarchy.purgeTarget? job.payload

/-- Whether a purge of a node finds it in use. -/
def inUse (w : Watch k) (id : NodeId k) : Bool :=
  match ((w.timeline.hierarchy.within (w.guarded .calm)).purge id).1 with
  | .ok (.inUse _) => true
  | _ => false

/-- What is after a turn. -/
def step (w : Watch k) : Turn k → Watch k
  | .serve env (.archive id) =>
    { w with
      timeline := w.timeline.step (.serve (w.guarded env) (.archive id))
      notes := ((w.archives? env id).map .archived).toList ++ w.notes }
  | .serve env op => { w with timeline := w.timeline.step (.serve (w.guarded env) op) }
  | .find key =>
    { w with timeline := { w.timeline with hierarchy := (w.timeline.hierarchy.find key).2 } }
  | .attach id consumer => { w with registry := w.registry.attach id consumer }
  | .release id code => { w with registry := (w.registry.release id code).2 }
  | .wait t => { w with timeline := w.timeline.step (.wait t) }
  | .runNext =>
    { w with
      timeline := w.timeline.step (.runNext (w.guarded .calm))
      notes := ((w.purges?.filter w.inUse).map .foundInUse).toList ++ w.notes }

/-- What is after some turns. -/
def run (w : Watch k) (turns : List (Turn k)) : Watch k := turns.foldl step w

variable {w : Watch k} {id : NodeId k}

/-- A purge of a node waits for its first attempt or for another one. -/
def Awaited (w : Watch k) (id : NodeId k) : Prop :=
  ∃ u job, w.timeline.queue.jobs.get? u = some job ∧ job.status.isWaiting = true ∧
    job.kind = .purgeOf k.name ∧ Hierarchy.purgeTarget? job.payload = some id

/-- A purge of a node found it in use since it was archived last. -/
def Found (w : Watch k) (id : NodeId k) : Prop :=
  .foundInUse id ∈ w.notes.takeWhile (· ≠ .archived id)

/-- A purge of a node waits, or one found it in use since it was archived last. -/
def Remembered (w : Watch k) (id : NodeId k) : Prop := w.Awaited id ∨ w.Found id

/-- Every archived node is remembered, and purges can be carried out. -/
structure Retentive (w : Watch k) : Prop where
  orderly : w.timeline.Orderly
  unlocked : w.timeline.hierarchy.store.locked = false
  remembered : ∀ id, w.timeline.Archived id → w.Remembered id

/-- The purge of an archiving can be scheduled: the grace period does not lead past the last
instant. -/
def Timely (w : Watch k) (turn : Turn k) : Prop :=
  turn.isArchiving = true →
    ¬ w.timeline.hierarchy.settings.gracePeriod.Overruns w.timeline.now

instance (w : Watch k) (turn : Turn k) : Decidable (w.Timely turn) :=
  inferInstanceAs (Decidable (_ → ¬ _))

/-! ## Notes -/

theorem found_archived {l : List (Note k)} {x : NodeId k} (hx : id ≠ x)
    (h : Note.foundInUse id ∈ l.takeWhile (· ≠ .archived id)) :
    Note.foundInUse id ∈ (Note.archived x :: l).takeWhile (· ≠ .archived id) := by
  have hne : Note.archived x ≠ .archived id := fun he => hx (Note.archived.inj he).symm
  rw [List.takeWhile_cons_of_pos (by simpa using hne)]
  exact List.mem_cons_of_mem _ h

theorem found_inUse {l : List (Note k)} {x : NodeId k}
    (h : id = x ∨ Note.foundInUse id ∈ l.takeWhile (· ≠ .archived id)) :
    Note.foundInUse id ∈ (Note.foundInUse x :: l).takeWhile (· ≠ .archived id) := by
  rw [List.takeWhile_cons_of_pos (by simp)]
  rcases h with rfl | h
  · exact List.mem_cons_self
  · exact List.mem_cons_of_mem _ h

/-! ## Purges that are carried out -/

section Purges

variable {target : NodeId k} (hpurges : w.purges? = some target)

include hpurges

theorem notes_runNext : (w.step .runNext).notes =
    if w.inUse target then .foundInUse target :: w.notes else w.notes := by
  rw [step, hpurges, Option.filter_some]
  split <;> rfl

theorem Found.runNext (hfound : w.Found id) : (w.step .runNext).Found id := by
  rw [Found, notes_runNext hpurges]
  split
  · exact found_inUse (.inr hfound)
  · exact hfound

theorem found_of_inUse (huse : w.inUse target = true) : (w.step .runNext).Found target := by
  rw [Found, notes_runNext hpurges, if_pos huse]
  exact found_inUse (.inl rfl)

/-- A purge of another node is not the one that is carried out, and stays in the queue. -/
theorem Remembered.runNext {job : Job}
    (hjob : w.timeline.queue.jobs.get? job.id = some job)
    (htarget : Hierarchy.purgeTarget? job.payload = some target)
    (hother : ∀ u, u ≠ job.id →
      (w.step .runNext).timeline.queue.jobs.get? u = w.timeline.queue.jobs.get? u)
    (hid : id ≠ target) (hremembered : w.Remembered id) : (w.step .runNext).Remembered id := by
  rcases hremembered with ⟨u, j, hj, hwaiting, hkind, hpayload⟩ | hfound
  · have hu : u ≠ job.id := by
      rintro rfl
      obtain rfl := Option.some.inj (hjob.symm.trans hj)
      exact hid (Option.some.inj (hpayload.symm.trans htarget))
    exact .inl ⟨u, j, (hother u hu).trans hj, hwaiting, hkind, hpayload⟩
  · exact .inr (hfound.runNext hpurges)

end Purges

/-! ## Steps -/

namespace Retentive

variable (hw : w.Retentive)

include hw

theorem of_releases {h : Hierarchy k} (halike : w.timeline.hierarchy.Alike h)
    (hreleases : w.timeline.hierarchy.Releases h) :
    Retentive { w with timeline := { w.timeline with hierarchy := h } } where
  orderly := by
    let t : Timeline k := { w.timeline with hierarchy := h }
    have hnext : t.Orderly ∧ t.grace = w.timeline.grace := hw.orderly.next halike hw.orderly.job
    exact hnext.1
  unlocked := hreleases.locked.trans hw.unlocked
  remembered id harchived := by
    obtain ⟨node, hnode⟩ := harchived
    exact hw.remembered id ⟨node, hreleases.archived id node hnode⟩

/-- An operation other than an archiving releases nodes from the archive at most. -/
theorem serve (env : Surroundings k) {op : Operation k} (hop : ∀ id, op ≠ .archive id) :
    (w.step (.serve env op)).Retentive := by
  have hstep : w.step (.serve env op) =
      { w with timeline := w.timeline.step (.serve (w.guarded env) op) } := by
    cases op with
    | archive id => exact absurd rfl (hop id)
    | _ => rfl
  rw [hstep, Timeline.step_serve hop]
  exact hw.of_releases (w.timeline.hierarchy.serve_alike ..)
    (Hierarchy.serve_releases hw.orderly.refusal (w.guarded env) hop)

theorem find (key : Key k) : (w.step (.find key)).Retentive := by
  cases key with
  | byId id =>
    exact hw.of_releases (w.timeline.hierarchy.readThrough_alike ..)
      (Hierarchy.readThrough_releases hw.orderly.refusal ..)
  | byCode code =>
    exact hw.of_releases (w.timeline.hierarchy.readThrough_alike ..)
      (Hierarchy.readThrough_releases hw.orderly.refusal ..)

/-- An archiving that takes place puts a purge of its node into the queue, beside all that wait
there. -/
theorem archive (env : Surroundings k) (id : NodeId k)
    (htimely : ¬ w.timeline.hierarchy.settings.gracePeriod.Overruns w.timeline.now) :
    (w.step (.serve env (.archive id))).Retentive := by
  have horderly := (hw.orderly.step (.serve (w.guarded env) (.archive id))).1
  have hstep : w.step (.serve env (.archive id)) =
      { w with
        timeline := w.timeline.step (.serve (w.guarded env) (.archive id))
        notes := ((w.archives? env id).map .archived).toList ++ w.notes } := rfl
  rw [hstep]
  simp only [archives?, Timeline.step] at horderly ⊢
  rcases Hierarchy.archive_cases (h := w.timeline.hierarchy.within (w.guarded env))
      hw.orderly.refusal w.timeline.now (w.guarded env).scheduler w.timeline.queue
      (w.guarded env).job id with
    ⟨e, hr⟩ | ⟨node, ha, ⟨ho, -⟩ | ⟨due, job, hfree, hjob, -, hr⟩⟩
  · rw [hr] at horderly ⊢
    exact ⟨horderly, hw.unlocked, hw.remembered⟩
  · exact absurd ho htimely
  · rw [hr] at horderly ⊢
    refine ⟨horderly, ?_, fun x harchived => ?_⟩
    · simp only [Hierarchy.committed_store]
      exact hw.unlocked
    · obtain ⟨node', hnode⟩ := harchived
      simp only [Hierarchy.committed_store, Contents.withArchived, Table.get?_insert] at hnode
      by_cases hx : x = id
      · subst hx
        refine .inl ⟨job.id, job, Table.get?_insert_self .., ?_, hjob.kind, ?_⟩
        · rw [hjob.status]
          rfl
        · rw [hjob.payload, Hierarchy.purgeTarget?_payload]
      · rw [if_neg hx] at hnode
        rcases hw.remembered x ⟨node', hnode⟩ with ⟨u, j, hj, hwaits⟩ | hfound
        · have hu : u ≠ job.id := by
            rintro rfl
            rw [hfree] at hj
            cases hj
          exact .inl ⟨u, j, (Table.get?_insert_of_ne hu ..).trans hj, hwaits⟩
        · exact .inr (found_archived hx hfound)

/-- A run of the executor removes the node of the purge that it carries out, or notes that the node
is in use. The purges of other nodes stay in the queue. -/
theorem runNext : (w.step .runNext).Retentive := by
  have horderly : (w.step .runNext).timeline.Orderly :=
    (hw.orderly.step (.runNext (w.guarded .calm))).1
  rcases Executor.runNext_cases hw.orderly.keyed w.timeline.now
      (w.timeline.hierarchy.within (w.guarded .calm)) hw.orderly.kind with
    ⟨hclaim, heq, -⟩ | ⟨job, hclaim, hjob, -, hh, hother, -⟩
  · have hstep : w.step .runNext = { w with timeline :=
        { w.timeline with hierarchy := w.timeline.hierarchy.within (w.guarded .calm) } } := by
      rw [Watch.step, Timeline.step, heq, purges?, hclaim]
      rfl
    rw [hstep] at horderly ⊢
    exact ⟨horderly, hw.unlocked, hw.remembered⟩
  obtain ⟨-, -, ⟨target, htarget, -⟩, -⟩ := hw.orderly.job _ job hjob
  have htarget' : Hierarchy.purgeTarget? (job.start w.timeline.now).payload = some target := htarget
  have hpurges : w.purges? = some target := by
    rw [purges?, hclaim]
    exact htarget'
  have hafter : (w.step .runNext).timeline.hierarchy =
      ((w.timeline.hierarchy.within (w.guarded .calm)).purge target).2 :=
    hh.trans (Hierarchy.runPurge_eq htarget' _)
  have hothers : ∀ id, id ≠ target → w.timeline.Archived id → (w.step .runNext).Remembered id :=
    fun id hid harchived => (hw.remembered id harchived).runNext hpurges hjob htarget hother hid
  -- The registry always answers whether the node is in use.
  obtain ⟨codes, hcodes⟩ : ∃ codes,
      (w.timeline.hierarchy.within (w.guarded .calm)).consumers target = .ok codes := ⟨_, rfl⟩
  cases codes with
  | nil =>
    obtain ⟨outcome, h, hpurge, hlocked, harchived⟩ := Hierarchy.purge_of_unused
      (h := w.timeline.hierarchy.within (w.guarded .calm)) hw.orderly.refusal hw.unlocked hcodes
    rw [hpurge] at hafter
    refine ⟨horderly, by rw [hafter]; exact hlocked, ?_⟩
    rintro id ⟨node, hnode⟩
    rw [hafter, harchived, Table.get?_erase] at hnode
    split at hnode
    case isTrue => cases hnode
    case isFalse hid => exact hothers id hid ⟨node, hnode⟩
  | cons code codes =>
    have hpurge : (w.timeline.hierarchy.within (w.guarded .calm)).purge target =
        (.ok (.inUse (code :: codes)), w.timeline.hierarchy.within (w.guarded .calm)) := by
      rw [Hierarchy.purge, hcodes]
    have huse : w.inUse target = true := by rw [inUse, hpurge]
    rw [hpurge] at hafter
    refine ⟨horderly, by rw [hafter]; exact hw.unlocked, ?_⟩
    rintro id ⟨node, hnode⟩
    rw [hafter] at hnode
    by_cases hid : id = target
    · subst hid
      exact .inr (found_of_inUse hpurges huse)
    · exact hothers id hid ⟨node, hnode⟩

/-- Every turn keeps all archived nodes remembered. -/
theorem step (turn : Turn k) (htimely : w.Timely turn) : (w.step turn).Retentive := by
  cases turn with
  | serve env op =>
    by_cases hop : ∃ id, op = .archive id
    · obtain ⟨id, rfl⟩ := hop
      exact hw.archive env id (htimely rfl)
    · exact hw.serve env fun id he => hop ⟨id, he⟩
  | find key => exact hw.find key
  | attach id consumer => exact ⟨hw.orderly, hw.unlocked, hw.remembered⟩
  | release id code => exact ⟨hw.orderly, hw.unlocked, hw.remembered⟩
  | wait t => exact ⟨(hw.orderly.step (.wait t)).1, hw.unlocked, hw.remembered⟩
  | runNext => exact hw.runNext

theorem run (turns : List (Turn k))
    (htimely : ∀ n (hn : n < turns.length), (w.run (turns.take n)).Timely turns[n]) :
    (w.run turns).Retentive := by
  induction turns generalizing w with
  | nil => exact hw
  | cons turn rest ih =>
    exact ih (hw.step turn (htimely 0 (Nat.zero_lt_succ _)))
      fun n hn => htimely (n + 1) (Nat.succ_lt_succ hn)

end Retentive

/-- The state before any turn. -/
def start (h : Hierarchy k) (now : Instant) (registry : Registry k) : Watch k :=
  { timeline := .start h now, registry }

theorem start_retentive {h : Hierarchy k} (hstart : h.store = {}) (now : Instant)
    (registry : Registry k) : (start h now registry).Retentive where
  orderly := Timeline.start_orderly (by rw [hstart]) now
  unlocked := by
    change h.store.locked = false
    rw [hstart]
  remembered id harchived := by
    obtain ⟨node, hnode⟩ := harchived
    change h.store.contents.archived.get? id = some node at hnode
    rw [hstart] at hnode
    cases hnode

/-- In every state to which operations, lookups, consumers, the clock and the executor lead from an
empty store, each archived node is remembered: a purge of it waits in the queue, or one was carried
out since the node was archived last and found it in use. The purges of all archivings can be
scheduled, as far as the grace period goes. -/
theorem run_remembered (h : Hierarchy k) (hstart : h.store = {}) (now : Instant)
    (registry : Registry k) (turns : List (Turn k))
    (htimely : ∀ n (hn : n < turns.length),
      ((start h now registry).run (turns.take n)).Timely turns[n]) (id : NodeId k) :
    let w := (start h now registry).run turns
    w.timeline.Archived id → w.Remembered id :=
  ((start_retentive hstart now registry).run turns htimely).remembered id

/-- A node is archived, recovered and archived again, then taken into use; both purges find it in
use. -/
def busy : List (Turn ⟨"tag"⟩) :=
  [.serve .calm (.add { id := some ⟨1⟩, code := "a", name := "a" }),
    .serve .calm (.archive ⟨1⟩), .serve .calm (.recover ⟨1⟩),
    .serve { Surroundings.calm with job := .ofNat 1 } (.archive ⟨1⟩),
    .attach ⟨1⟩ ⟨"r", "R"⟩, .wait ⟨1296000 * nanosPerSecond, false⟩, .runNext, .runNext]

/-- No purge waits for the node any more; both found it in use. -/
theorem run_remembered_busy :
    let w := (start { cache := .memory {} } ⟨0, false⟩ {}).run busy
    w.timeline.Archived ⟨1⟩ ∧ w.Found ⟨1⟩ := by
  intro w
  have harchived : (w.timeline.hierarchy.store.contents.archived.get? ⟨1⟩).isSome = true := by
    decide +kernel
  have hdone : ∀ job ∈ w.timeline.queue.jobs.values, job.status.isWaiting = false := by
    decide +kernel
  have harchived := Option.isSome_iff_exists.1 harchived
  refine ⟨harchived, ?_⟩
  rcases run_remembered { cache := .memory {} } rfl ⟨0, false⟩ {} busy (by decide +kernel) ⟨1⟩
    harchived with ⟨u, job, hjob, hwaiting, -⟩ | hfound
  · rw [hdone job (Table.mem_values.2 ⟨u, hjob⟩)] at hwaiting
    cases hwaiting
  · exact hfound

end Watch

end Lineage
