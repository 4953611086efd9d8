import Lineage.Hierarchy.Lookup
import Lineage.Proofs.Archiving

/-!
# What is refused leaves no trace

An operation that answers an error changes neither the records, the rows and the cached views of a
hierarchy nor the jobs of whoever schedules its purges. So the operations after it cannot tell
whether it was asked for at all.

* `Engine`, `Demand`: a hierarchy with the jobs of any scheduler, and what may be asked of it.
* `Hierarchy.Atomic`: an answer that is no error, or else leaves all but drawn ids as it was.
* `Engine.Same`: two engines that answer alike from here on (`Engine.Same.run`).
* `Engine.run_atomic`: what is refused in a run leaves the engine the same.
-/

namespace Lineage

variable {k : Kind} {α β ε : Type}

/-! ## Engines -/

/-- Someone who schedules purges and keeps jobs of some form. A failure adds no job. -/
structure Scheduler (σ : Type) where
  schedule (hierarchy : String) (id : Int) (due : Instant) (jobs : σ) : Except QueueError Unit × σ
  kept : ∀ hierarchy id due jobs e,
    (schedule hierarchy id due jobs).1 = .error e → (schedule hierarchy id due jobs).2 = jobs

/-- The scheduler that puts purges into a queue. -/
def PurgeScheduler.scheduler (s : PurgeScheduler) (job : Uuid) (now : Instant) :
    Scheduler JobQueue where
  schedule hierarchy id due q := s.request hierarchy id due job now q
  kept hierarchy id due q e h := by
    rcases s.request_cases hierarchy id due job now q with ⟨e, hr⟩ | ⟨j, -, -, -, hr⟩
    · rw [hr]
    · rw [hr] at h
      cases h

/-- A hierarchy, and the jobs of those who schedule its purges. -/
structure Engine (k : Kind) (σ : Type) where
  hierarchy : Hierarchy k
  jobs : σ

/-- An operation with what it depends on. The queue among its surroundings plays no part. -/
structure Demand (k : Kind) (σ : Type) where
  env : Surroundings k
  scheduler : Scheduler σ
  op : Operation k

namespace Engine

variable {σ : Type}

/-- Do what is asked for. -/
def serve (x : Engine k σ) (d : Demand k σ) : Except (Failure k) (Reply k) × Engine k σ :=
  match d.op with
  | .archive id =>
    let (answer, h, jobs) := (x.hierarchy.within d.env).archiveBy
      (d.scheduler.schedule k.name id.toInt) x.jobs d.env.now id
    (answer.map fun _ => .done, ⟨h, jobs⟩)
  | op =>
    let (answer, h) := x.hierarchy.serve d.env op
    (answer, ⟨h, x.jobs⟩)

/-- Do what is asked for, one after the other. -/
def run (x : Engine k σ) : List (Demand k σ) → List (Except (Failure k) (Reply k)) × Engine k σ
  | [] => ([], x)
  | d :: rest =>
    let (answer, x) := x.serve d
    let (answers, x) := run x rest
    (answer :: answers, x)

theorem serve_eq (x : Engine k σ) (env : Surroundings k) (s : Scheduler σ) {op : Operation k}
    (hop : ∀ id, op ≠ .archive id) : x.serve ⟨env, s, op⟩ =
      ((x.hierarchy.serve env op).1, ⟨(x.hierarchy.serve env op).2, x.jobs⟩) := by
  cases op with
  | archive id => exact absurd rfl (hop id)
  | _ => rfl

end Engine

/-! ## Operations -/

namespace Hierarchy

variable {h : Hierarchy k}

/-- The answer is no error, or else the hierarchy is as it was, but for ids that were drawn. -/
def Atomic (h : Hierarchy k) (r : Except ε α × Hierarchy k) : Prop :=
  ∀ e, r.1 = .error e → ∃ ids, r.2 = { h with ids }

theorem Atomic.of_eq {r : Except ε α × Hierarchy k} (hr : r.2 = h) : h.Atomic r :=
  fun _ _ => ⟨h.ids, hr⟩

theorem Atomic.replied {r : Except (HierarchyError k) α × Hierarchy k} (hr : h.Atomic r)
    (reply : α → Reply k) : h.Atomic (replied reply r) := by
  intro e he
  rcases r with ⟨e' | a, h'⟩
  · exact hr e' rfl
  · cases he

theorem change_atomic (h : Hierarchy k) (w : Work k (α × Option (List (NodeId k))))
    (failed : StoreError → HierarchyError k) : h.Atomic (h.change w failed) := by
  unfold change
  split
  · exact .of_eq rfl
  · exact .of_eq rfl
  · split
    · exact .of_eq rfl
    · exact fun e he => by cases he

theorem add_atomic (h : Hierarchy k) (millis : Int) (new : NewNode k) :
    h.Atomic (h.add millis new) := by
  unfold add
  cases new.flaw? with
  | some flaw => exact .of_eq rfl
  | none =>
    cases new.id with
    | some id => exact change_atomic h _ _
    | none => exact change_atomic (h.drawId millis).2 _ _

theorem update_atomic (h : Hierarchy k) (node : Node k) : h.Atomic (h.update node) := by
  unfold update
  split
  · exact .of_eq rfl
  · exact change_atomic h _ _

theorem purge_atomic (h : Hierarchy k) (id : NodeId k) : h.Atomic (h.purge id) := by
  unfold purge
  split
  · exact .of_eq rfl
  · exact .of_eq rfl
  · exact change_atomic h _ _

theorem delete_atomic (h : Hierarchy k) (id : NodeId k) : h.Atomic (h.delete id) := by
  unfold delete
  split
  · exact .of_eq rfl
  · exact change_atomic h _ _

theorem deleteByCode_atomic (h : Hierarchy k) (code : String) :
    h.Atomic (h.deleteByCode code) := by
  unfold deleteByCode
  split
  · exact .of_eq rfl
  · split
    · exact .of_eq rfl
    · exact delete_atomic h _

/-- Operations other than archivings, which have jobs to look after. -/
theorem serve_atomic (h : Hierarchy k) (env : Surroundings k) {op : Operation k}
    (hop : ∀ id, op ≠ .archive id) : (h.within env).Atomic (h.serve env op) := by
  cases op with
  | add new => exact (add_atomic _ env.millis new).replied _
  | update node => exact (update_atomic _ node).replied _
  | link a d => exact .replied (change_atomic _ _ _) _
  | unlink a d => exact .replied (change_atomic _ _ _) _
  | archive id => exact absurd rfl (hop id)
  | recover id => exact .replied (change_atomic _ _ _) _
  | purge id => exact (purge_atomic _ id).replied _
  | delete id => exact (delete_atomic _ id).replied _
  | deleteByCode code => exact (deleteByCode_atomic _ code).replied _

/-- An archiving that is refused leaves the hierarchy and the jobs as they were. -/
theorem archiveBy_refused {σ : Type} (hr : h.store.refusal = none) (s : Scheduler σ) (jobs : σ)
    (now : Instant) (hierarchy : String) (number : Int) (id : NodeId k) {e : HierarchyError k}
    (he : (h.archiveBy (s.schedule hierarchy number) jobs now id).1 = .error (.refused e)) :
    (h.archiveBy (s.schedule hierarchy number) jobs now id).2 = (h, jobs) := by
  rcases archiveBy_cases hr (s.schedule hierarchy number) jobs now id with
    ⟨e, hrefused⟩ | ⟨node, -, ⟨-, haborted⟩ | ⟨n, due, -, -, hends⟩⟩
  · rw [hrefused]
  · rw [haborted] at he
    cases he
  · have hkept := s.kept hierarchy number due jobs
    revert hends hkept
    rcases s.schedule hierarchy number due jobs with ⟨e | ⟨⟩, jobs'⟩
    · intro hends hkept
      rw [hends, ← hkept e rfl]
    · intro hends
      rw [hends] at he
      cases he

end Hierarchy

/-! ## Runs -/

namespace Engine

variable {σ : Type} {x y : Engine k σ}

/-- Two engines that differ at most in what every operation brings along. -/
structure Same (x y : Engine k σ) : Prop where
  within : ∀ env, x.hierarchy.within env = y.hierarchy.within env
  jobs : x.jobs = y.jobs

theorem Same.store (hxy : x.Same y) : x.hierarchy.store = y.hierarchy.store := by
  have h := congrArg Hierarchy.store (hxy.within .calm)
  exact h

theorem Same.cache (hxy : x.Same y) : x.hierarchy.cache = y.hierarchy.cache := by
  have h := congrArg Hierarchy.cache (hxy.within .calm)
  exact h

theorem Same.of_ids {env : Surroundings k} {h : Hierarchy k} {jobs : σ} (ids : IdSource)
    (hh : h = { x.hierarchy.within env with ids }) (hjobs : jobs = x.jobs) : Same ⟨h, jobs⟩ x :=
  ⟨fun env' => by rw [hh]; rfl, hjobs⟩

/-- Engines that are the same answer alike and become the same. -/
theorem Same.serve (hxy : x.Same y) (d : Demand k σ) : x.serve d = y.serve d := by
  obtain ⟨env, scheduler, op⟩ := d
  have hwithin := hxy.within env
  cases op <;> simp only [Engine.serve, Hierarchy.serve, hwithin, hxy.jobs]

theorem Same.run (hxy : x.Same y) (ds : List (Demand k σ)) :
    (x.run ds).1 = (y.run ds).1 ∧ (x.run ds).2.Same (y.run ds).2 := by
  cases ds with
  | nil => exact ⟨rfl, hxy⟩
  | cons d rest =>
    have hserve := hxy.serve d
    rw [Engine.run, Engine.run, hserve]
    exact ⟨rfl, fun _ => rfl, rfl⟩

/-- A demand that is refused leaves the engine the same. -/
theorem serve_refused (hr : x.hierarchy.store.refusal = none) (d : Demand k σ)
    {e : HierarchyError k} (he : (x.serve d).1 = .error (.refused e)) : (x.serve d).2.Same x := by
  obtain ⟨env, s, op⟩ := d
  by_cases harchive : ∃ id, op = .archive id
  · obtain ⟨id, rfl⟩ := harchive
    have hleft := Hierarchy.archiveBy_refused (h := x.hierarchy.within env) (e := e) hr s x.jobs
      env.now k.name id.toInt id
    simp only [Engine.serve] at he ⊢
    revert he hleft
    rcases (x.hierarchy.within env).archiveBy (s.schedule k.name id.toInt) x.jobs env.now id with
      ⟨_ | _, h, jobs⟩
    · intro he hleft
      obtain rfl := Except.error.inj he
      obtain ⟨rfl, rfl⟩ := Prod.mk.inj (hleft rfl)
      exact .of_ids env.ids rfl rfl
    · intro he
      cases he
  · have hop : ∀ id, op ≠ .archive id := fun id h => harchive ⟨id, h⟩
    rw [x.serve_eq env s hop] at he ⊢
    obtain ⟨ids, hids⟩ := Hierarchy.serve_atomic x.hierarchy env hop _ he
    exact .of_ids ids hids rfl

theorem serve_alike (x : Engine k σ) (d : Demand k σ) :
    x.hierarchy.Alike (x.serve d).2.hierarchy := by
  obtain ⟨env, s, op⟩ := d
  by_cases harchive : ∃ id, op = .archive id
  · obtain ⟨id, rfl⟩ := harchive
    have hin : x.hierarchy.Alike (x.hierarchy.within env) := ⟨rfl, rfl⟩
    exact hin.trans (Hierarchy.archiveBy_alike ..)
  · rw [x.serve_eq env s fun id h => harchive ⟨id, h⟩]
    exact x.hierarchy.serve_alike env op

theorem run_alike (x : Engine k σ) (ds : List (Demand k σ)) :
    x.hierarchy.Alike (x.run ds).2.hierarchy := by
  induction ds generalizing x with
  | nil => exact ⟨rfl, rfl⟩
  | cons d rest ih => exact (x.serve_alike d).trans (ih _)

/-- Whatever was asked of an engine before, and whoever guards its nodes and schedules its purges: a
demand that is refused leaves the records and the rows, the cached views and the jobs as they were,
and all demands after it are answered as if it had not been made. -/
theorem run_atomic (x : Engine k σ) (hr : x.hierarchy.store.refusal = none)
    (before : List (Demand k σ)) (d : Demand k σ) (e : HierarchyError k)
    (hrefused : ((x.run before).2.serve d).1 = .error (.refused e)) :
    let y := (x.run before).2
    let z := (y.serve d).2
    z.hierarchy.store = y.hierarchy.store ∧ z.hierarchy.cache = y.hierarchy.cache ∧
      z.jobs = y.jobs ∧
      ∀ after, (z.run after).1 = (y.run after).1 ∧ (z.run after).2.Same (y.run after).2 := by
  have hsame := serve_refused ((x.run_alike before).refusal.trans hr) d hrefused
  exact ⟨hsame.store, hsame.cache, hsame.jobs, fun after => hsame.run after⟩

/-- A node that is registered and looked up, so that its view is cached. -/
def registered : Engine ⟨"tag"⟩ JobQueue where
  hierarchy := ((Hierarchy.serve { cache := .memory {} } .calm
    (.add { id := some ⟨1⟩, code := "a", name := "a" })).2.findById ⟨1⟩).2
  jobs := {}

/-- An archiving of the node, when the queue takes no jobs. -/
def unscheduled : Demand ⟨"tag"⟩ JobQueue where
  env := .calm
  scheduler := PurgeScheduler.scheduler { outage := some (.storage "down") } default ⟨0, false⟩
  op := .archive ⟨1⟩

/-- The node stays active, and its view stays cached. -/
theorem run_atomic_unscheduled :
    (registered.serve unscheduled).1 =
        .error (.refused (.scheduler "failed to enqueue purge job: storage error: down")) ∧
      (registered.serve unscheduled).2.hierarchy.store = registered.hierarchy.store ∧
      (registered.serve unscheduled).2.hierarchy.cache = registered.hierarchy.cache ∧
      (registered.serve unscheduled).2.jobs = registered.jobs := by
  have hrefused : (registered.serve unscheduled).1 =
      .error (.refused (.scheduler "failed to enqueue purge job: storage error: down")) := by
    rfl
  obtain ⟨hstore, hcache, hjobs, -⟩ := run_atomic registered (by rfl) [] unscheduled _ hrefused
  exact ⟨hrefused, hstore, hcache, hjobs⟩

end Engine

end Lineage
