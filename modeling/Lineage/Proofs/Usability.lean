import Lineage.Proofs.Numeral
import Lineage.Proofs.Releases

/-!
# Whether settings can be worked with

Settings that are read from variables have spans of whole seconds, and any number of seconds below
2⁶⁴ is accepted. Not every one can be worked with: a cache in memory is not built for lives of more
than a thousand years, and a grace period that leads past the last instant cuts off every archiving,
after which the store stays locked.

* `Settings.read_seconds`, `Settings.read_inSeconds`: the spans that are read.
* `Hierarchy.serve_aborted_iff`: when an operation is cut off.
* `Hierarchy.run_locked_iff`: the store is locked once an operation was cut off.
* `Hierarchy.run_usable`: what can be worked with.
-/

namespace Lineage

variable {k : Kind}

/-! ## The spans that are read -/

namespace Settings

variable {lookup : String → Option String} {s : Settings}

theorem exists_of_bind_eq_ok {ε α β : Type} {x : Except ε α} {f : α → Except ε β} {b : β}
    (h : (x >>= f) = .ok b) : ∃ a, x = .ok a ∧ f a = .ok b := by
  cases x with
  | error e => cases h
  | ok a => exact ⟨a, rfl, h⟩

theorem read_seconds (h : read lookup = .ok s) :
    ∃ grace ttl : UInt64, s.gracePeriod = .ofSeconds grace ∧ s.cacheTtl = .ofSeconds ttl := by
  obtain ⟨worker, -, h⟩ := exists_of_bind_eq_ok h
  dsimp only at h
  split at h
  · cases h
  · obtain ⟨grace, -, h⟩ := exists_of_bind_eq_ok h
    obtain ⟨ttl, -, h⟩ := exists_of_bind_eq_ok h
    obtain ⟨capacity, -, h⟩ := exists_of_bind_eq_ok h
    obtain ⟨attempts, -, h⟩ := exists_of_bind_eq_ok h
    obtain ⟨leafOnly, -, h⟩ := exists_of_bind_eq_ok h
    obtain rfl := Except.ok.inj h
    exact ⟨_, _, rfl, rfl⟩

/-- Variables that give two spans in seconds, and nothing else. -/
def inSeconds (grace ttl : UInt64) (name : String) : Option String :=
  if name = "TRELLIS_ARCHIVE_GRACE_PERIOD_SECS" then some grace.toNat.repr
  else if name = "TRELLIS_CACHE_TTL_SECS" then some ttl.toNat.repr
  else none

theorem number_of_none {name : String} (h : lookup name = none) (default bound : Nat) :
    number lookup name default bound = .ok default := by
  rw [number, field, value?, h]
  rfl

theorem number_of_repr {name : String} {n bound : Nat} (h : lookup name = some n.repr)
    (hn : n < bound) (default : Nat) : number lookup name default bound = .ok n := by
  have hvalue : value? lookup name = some n.repr := by
    rw [value?, h, Option.filter_some, Text.isBlankText_repr]
    rfl
  simp only [number, field, hvalue, Text.trim_repr, Text.numeralBelow_repr hn]

/-- Any numbers of seconds are accepted. -/
theorem read_inSeconds (grace ttl : UInt64) : read (inSeconds grace ttl) =
    .ok { gracePeriod := .ofSeconds grace, cacheTtl := .ofSeconds ttl } := by
  have hgrace := fun d => number_of_repr (rfl : inSeconds grace ttl
    "TRELLIS_ARCHIVE_GRACE_PERIOD_SECS" = some grace.toNat.repr) grace.toNat_lt_size d
  have httl := fun d => number_of_repr (rfl : inSeconds grace ttl
    "TRELLIS_CACHE_TTL_SECS" = some ttl.toNat.repr) ttl.toNat_lt_size d
  have hworker := number_of_none (rfl : inSeconds grace ttl "TRELLIS_WORKER_ID" = none)
  have hcapacity := number_of_none (rfl : inSeconds grace ttl "TRELLIS_CACHE_MAX_CAPACITY" = none)
  have hattempts := number_of_none (rfl : inSeconds grace ttl "TRELLIS_PURGE_MAX_ATTEMPTS" = none)
  have hleaf : field (inSeconds grace ttl) "TRELLIS_LEAF_ONLY_DETACH" true Text.flag = .ok true :=
    rfl
  simp only [read, hworker, hgrace, httl, hcapacity, hattempts, hleaf]
  change Except.ok ({
    gracePeriod := .ofSeconds (UInt64.ofNat grace.toNat)
    cacheTtl := .ofSeconds (UInt64.ofNat ttl.toNat) } : Settings) = _
  rw [UInt64.ofNat_toNat, UInt64.ofNat_toNat]

end Settings

/-! ## What cannot be worked with -/

/-- A cache in memory is built for lives of a thousand years at the most. -/
theorem Cache.inMemory_ok_iff {s : Settings} {ttl : UInt64} (h : s.cacheTtl = .ofSeconds ttl) :
    (∃ c : Cache k, inMemory s = .ok c) ↔ ttl.toNat ≤ 31536000000 := by
  have hlong : MemoryCache.longestLife < s.cacheTtl.nanos ↔ 31536000000 < ttl.toNat := by
    rw [h]
    simp only [MemoryCache.longestLife, Duration.ofSeconds, nanosPerSecond]
    omega
  unfold inMemory MemoryCache.create
  by_cases hlt : 31536000000 < ttl.toNat
  · rw [if_pos (hlong.2 hlt)]
    refine iff_of_false ?_ (Nat.not_le.2 hlt)
    rintro ⟨c, hc⟩
    cases hc
  · rw [if_neg (mt hlong.1 hlt)]
    exact iff_of_true ⟨_, rfl⟩ (Nat.not_lt.1 hlt)

theorem Duration.ofSeconds_inj {a b : UInt64} (h : ofSeconds a = ofSeconds b) : a = b := by
  have hnanos := congrArg Duration.nanos h
  simp only [ofSeconds, nanosPerSecond] at hnanos
  exact UInt64.toNat_inj.1 (by omega)

/-- A grace period of whole seconds leads past the last instant if it is not too long to be added
to instants at all. -/
theorem Duration.ofSeconds_overruns_iff {grace : UInt64} {now : Instant} :
    (ofSeconds grace).Overruns now ↔ grace.toNat ≤ 9223372036854775 ∧
      Instant.last < now.base + (grace.toNat * nanosPerSecond : Nat) := by
  have hlongest : (ofSeconds grace).nanos ≤ longestStep ↔ grace.toNat ≤ 9223372036854775 := by
    simp only [longestStep, ofSeconds, nanosPerSecond]
    omega
  unfold Overruns step? Instant.add?
  rw [← hlongest]
  by_cases hle : (ofSeconds grace).nanos ≤ longestStep
  · rw [if_pos hle, and_iff_right hle]
    have hnanos : (ofSeconds grace).nanos = grace.toNat * nanosPerSecond := rfl
    simp [hnanos]
  · rw [if_neg hle]
    refine iff_of_false ?_ fun h => hle h.1
    rintro ⟨n, hn, -⟩
    cases hn

namespace Hierarchy

section Locking

variable {h : Hierarchy k} (hr : h.store.refusal = none)

include hr

/-- An operation is cut off only if it is an archiving that nothing stands against, when the grace
period leads past the last instant. -/
theorem serve_aborted_iff (env : Surroundings k) (op : Operation k) (cause : Abort) :
    (h.serve env op).1 = .error (.aborted cause) ↔ cause = .pastLastInstant ∧
      ∃ id node, op = .archive id ∧ (h.within env).Archivable id node ∧
        h.settings.gracePeriod.Overruns env.now := by
  have hin : (h.within env).store.refusal = none := hr
  by_cases harchive : ∃ id, op = .archive id
  · obtain ⟨id, rfl⟩ := harchive
    constructor
    · intro he
      rw [serve] at he
      rcases archive_cases hin env.now env.scheduler env.queue env.job id with
        ⟨e, hrefused⟩ | ⟨node, ha, ⟨ho, haborted⟩ | ⟨due, job, -, -, -, hok⟩⟩
      · rw [hrefused] at he
        cases he
      · rw [haborted] at he
        cases he
        exact ⟨rfl, id, node, rfl, ha, ho⟩
      · rw [hok] at he
        cases he
    · rintro ⟨rfl, id', node, hid, ha, ho⟩
      obtain rfl := Operation.archive.inj hid
      rw [serve, archive, ha.archiveBy_of_overruns hin _ _ _ ho]
      rfl
  · refine iff_of_false (h.serve_not_aborted env (fun id hid => harchive ⟨id, hid⟩) cause) ?_
    rintro ⟨-, id, -, hid, -⟩
    exact harchive ⟨id, hid⟩

theorem serve_locked_iff (env : Surroundings k) (op : Operation k) :
    (h.serve env op).2.store.locked = true ↔
      h.store.locked = true ∨ ∃ cause, (h.serve env op).1 = .error (.aborted cause) := by
  have hin : (h.within env).store.refusal = none := hr
  by_cases harchive : ∃ id, op = .archive id
  · obtain ⟨id, rfl⟩ := harchive
    rw [serve]
    rcases archive_cases hin env.now env.scheduler env.queue env.job id with
      ⟨e, hrefused⟩ | ⟨node, ha, ⟨ho, haborted⟩ | ⟨due, job, -, -, -, hok⟩⟩
    · rw [hrefused]
      refine (or_iff_left ?_).symm
      rintro ⟨cause, he⟩
      cases he
    · rw [haborted]
      exact iff_of_true rfl (.inr ⟨_, rfl⟩)
    · rw [hok]
      dsimp only
      rw [committed_store]
      refine (or_iff_left ?_).symm
      rintro ⟨cause, he⟩
      cases he
  · have hop : ∀ id, op ≠ .archive id := fun id hid => harchive ⟨id, hid⟩
    rw [(serve_releases hr env hop).locked]
    refine (or_iff_left ?_).symm
    rintro ⟨cause, he⟩
    exact h.serve_not_aborted env hop cause he

/-- The store is locked after a run exactly if some operation of the run was cut off, or it was
locked before. -/
theorem run_locked_iff (steps : List (Surroundings k × Operation k)) :
    (h.run steps).2.store.locked = true ↔
      h.store.locked = true ∨ ∃ cause, .error (.aborted cause) ∈ (h.run steps).1 := by
  induction steps generalizing h with
  | nil => simp [run]
  | cons step rest ih =>
    obtain ⟨env, op⟩ := step
    have hrest := ih ((h.serve_alike env op).refusal.trans hr)
    rw [serve_locked_iff hr, or_assoc, ← exists_or] at hrest
    refine hrest.trans (or_congr_right (exists_congr fun cause => ?_))
    rw [run, List.mem_cons]
    exact or_congr_left eq_comm

end Locking

/-- What can be done with settings that were read. A cache in memory can be built unless its views
are to live for more than a thousand years. Whatever was done before, an operation is cut off
exactly if it is an archiving that nothing stands against and the grace period leads from its
instant past the last one; a transaction can begin exactly if no operation was cut off before. -/
theorem run_usable {lookup : String → Option String} {s : Settings}
    (hread : Settings.read lookup = .ok s) (h : Hierarchy k) (hsettings : h.settings = s)
    (hstart : h.store = {}) (steps : List (Surroundings k × Operation k)) :
    ∃ grace ttl : UInt64, s.gracePeriod = .ofSeconds grace ∧ s.cacheTtl = .ofSeconds ttl ∧
      ((∃ c : Cache k, Cache.inMemory s = .ok c) ↔ ttl.toNat ≤ 31536000000) ∧
      let h' := (h.run steps).2
      (∀ env op cause, (h'.serve env op).1 = .error (.aborted cause) ↔
        cause = .pastLastInstant ∧ ∃ id node, op = .archive id ∧
          (h'.within env).Archivable id node ∧ grace.toNat ≤ 9223372036854775 ∧
          Instant.last < env.now.base + (grace.toNat * nanosPerSecond : Nat)) ∧
      ((∃ t, h'.store.begin = .ok t) ↔ ∀ cause, .error (.aborted cause) ∉ (h.run steps).1) := by
  obtain ⟨grace, ttl, hgrace, httl⟩ := Settings.read_seconds hread
  have hr : h.store.refusal = none := by rw [hstart]
  have hrun := h.run_alike steps
  have hr' := hrun.refusal.trans hr
  have hperiod : (h.run steps).2.settings.gracePeriod = .ofSeconds grace := by
    rw [hrun.settings, hsettings, hgrace]
  refine ⟨grace, ttl, hgrace, httl, Cache.inMemory_ok_iff httl, fun env op cause => ?_, ?_⟩
  · rw [serve_aborted_iff hr', hperiod, Duration.ofSeconds_overruns_iff]
  · have hlocked := run_locked_iff hr steps
    rw [or_iff_right (by rw [hstart]; exact Bool.false_ne_true)] at hlocked
    rw [MemoryStore.begin_eq hr', ← not_exists, ← hlocked, MemoryStore.committed]
    cases (h.run steps).2.store.locked with
    | true =>
      refine iff_of_false ?_ fun hn => hn rfl
      rintro ⟨t, ht⟩
      cases ht
    | false => exact iff_of_true ⟨_, rfl⟩ Bool.false_ne_true

/-- A grace period of 285000 years, and views that live for a second more than a thousand. -/
def endless : Settings :=
  { gracePeriod := .ofSeconds 9000000000000, cacheTtl := .ofSeconds 31536000001 }

/-- A node is registered and archived. -/
def doomed : List (Surroundings ⟨"tag"⟩ × Operation ⟨"tag"⟩) :=
  [(.calm, .add { code := "a", name := "a" }), (.calm, .archive ⟨1⟩)]

theorem run_doomed : (run { settings := endless, cache := .memory {} } doomed).1 =
    [.ok (.node { id := ⟨1⟩, code := "a", name := "a" }), .error (.aborted .pastLastInstant)] := by
  rfl

/-- These settings are accepted; there is no cache for them, and the first archiving is the last
transaction. -/
theorem run_usable_endless :
    Settings.read (Settings.inSeconds 9000000000000 31536000001) = .ok endless ∧
      (¬ ∃ c : Cache ⟨"tag"⟩, Cache.inMemory endless = .ok c) ∧
      ¬ ∃ t, (run { settings := endless, cache := .memory {} } doomed).2.store.begin = .ok t := by
  have hread : Settings.read (Settings.inSeconds 9000000000000 31536000001) = .ok endless :=
    Settings.read_inSeconds ..
  obtain ⟨grace, ttl, -, httl, hcache, -, hbegin⟩ :=
    run_usable hread { settings := endless, cache := .memory {} } rfl rfl doomed
  obtain rfl := Duration.ofSeconds_inj httl
  refine ⟨hread, ?_, ?_⟩
  · rw [hcache]
    decide
  · rw [hbegin, run_doomed]
    exact fun hnone => hnone .pastLastInstant (List.mem_cons_of_mem _ List.mem_cons_self)

/-- Settings that are accepted although neither a cache in memory nor an archiving works with them:
the archiving is cut off, and no transaction begins after it. -/
theorem endless_accepted :
    Settings.read (Settings.inSeconds 9000000000000 31536000001) = .ok endless ∧
      (Cache.inMemory endless : Except Abort (Cache ⟨"tag"⟩)) = .error .lifeTooLong ∧
      (run { settings := endless, cache := .memory {} } doomed).1.getLast? =
        some (.error (.aborted .pastLastInstant)) ∧
      (run { settings := endless, cache := .memory {} } doomed).2.store.begin =
        .error MemoryStore.lockedError :=
  ⟨Settings.read_inSeconds .., rfl, rfl, rfl⟩

end Hierarchy

end Lineage
