import Lineage.Proofs.Commit
import Lineage.Proofs.Keys

/-!
# What the cache of a hierarchy keeps

A view is kept under the id of its node, and a code leads to it. What is found later is a view that
was put there and neither dropped nor lost: a cache never makes up a view, unless the text of one on
a server is read as another one. A cache that fails to drop a view does not answer it either.

* `Cache.GivesBack`: a view that the cache gives back as it is.
* `Cache.get_put`, `Cache.get_delete`: what is found after a view was put or dropped.
* `Hierarchy.kept`: the view of an id that the cache answers, if it works.
* `Hierarchy.Thins`: a hierarchy whose cache has lost views. Drops and losses lead to one.
-/

namespace Lineage

variable {k : Kind}

/-! ## One cache -/

namespace MemoryCache

variable {c : MemoryCache k} {code : String} {v : NodeView k}

theorem byId_delete (c : MemoryCache k) (id j : NodeId k) :
    (c.delete id).byId.get? j = if j = id then none else c.byId.get? j := by
  unfold delete
  split
  case h_1 hnone =>
    split
    case isTrue hj => rw [hj, hnone]
    case isFalse => rfl
  case h_2 => exact Table.get?_erase _ _ _

theorem getByCode?_eq_some : c.getByCode? code = some v ↔
    ∃ id, c.byCode.get? code = some id ∧ c.byId.get? id = some v ∧ v.node.code = code := by
  rw [getByCode?, Option.filter_eq_some_iff, beq_iff_eq]
  constructor
  · rintro ⟨hv, hcode⟩
    obtain ⟨id, hid, hview⟩ := Option.bind_eq_some_iff.1 hv
    exact ⟨id, hid, hview, hcode⟩
  · rintro ⟨id, hid, hview, hcode⟩
    exact ⟨Option.bind_eq_some_iff.2 ⟨id, hid, hview⟩, hcode⟩

end MemoryCache

namespace Cache

variable {c d : Cache k} {id j : NodeId k} {v v' : NodeView k}

/-- A view that is put into the cache is found there, if at all, as it is: on a server its text is
not the text of another view. -/
def GivesBack (v : NodeView k) : Cache k → Prop
  | memory _ => True
  | remote _ => ∀ v', Wire.read? (Wire.write v) = some v' → v' = v

theorem givesBack_put (c : Cache k) : (c.put v).GivesBack v' ↔ c.GivesBack v' := by
  cases c <;> rfl

theorem givesBack_delete (h : c.delete id = .ok d) : d.GivesBack v ↔ c.GivesBack v := by
  cases c with
  | memory c => obtain rfl := Except.ok.inj h; rfl
  | remote c =>
    rw [delete] at h
    cases hd : c.delete id with
    | error e => rw [hd] at h; cases h
    | ok c' => rw [hd] at h; obtain rfl := Except.ok.inj h; rfl

/-- A view that is found after another one was put into the cache is that one or was found
before. -/
theorem get_put (hv : c.GivesBack v) (h : (c.put v).get j = .ok (some v')) :
    j = v.node.id ∧ v' = v ∨ c.get j = .ok (some v') := by
  cases c with
  | memory c =>
    simp only [put, get, MemoryCache.put, MemoryCache.get?] at h ⊢
    split at h
    case isTrue =>
      rw [Table.get?_insert] at h
      split at h
      case isTrue hj => exact .inl ⟨hj, (Option.some.inj (Except.ok.inj h)).symm⟩
      case isFalse => exact .inr h
    case isFalse => exact .inr h
  | remote c =>
    by_cases hj : j = v.node.id
    · subst hj
      have h : (c.put v).get v.node.id = .ok (some v') := h
      rw [RemoteCache.get_put] at h
      split at h
      case h_1 v₁ hread =>
        obtain rfl := Option.some.inj (Except.ok.inj h)
        exact .inl ⟨rfl, hv _ hread⟩
      case h_2 => cases h
    · exact .inr ((RemoteCache.get_put_of_ne c hj).symm.trans h)

/-- What is dropped is not found any more, and all else as before. -/
theorem get_delete (h : c.delete id = .ok d) (j : NodeId k) :
    d.get j = if j = id then .ok none else c.get j := by
  cases c with
  | memory c =>
    obtain rfl := Except.ok.inj h
    simp only [get, MemoryCache.get?, MemoryCache.byId_delete]
    split <;> rfl
  | remote c =>
    cases hcached : c.get id with
    | error e =>
      rw [delete, RemoteCache.delete_of_get_error hcached] at h
      cases h
    | ok cached =>
      rw [delete, RemoteCache.delete_of_get_ok hcached] at h
      obtain rfl := Except.ok.inj h
      split
      case isTrue hj =>
        subst hj
        exact RemoteCache.get_forget_self c j cached
      case isFalse hj => exact RemoteCache.get_forget_of_ne c hj cached

/-- Only what cannot be told is not dropped. -/
theorem get_of_delete_error {e : CacheError} (h : c.delete id = .error e) :
    c.get id = .error e := by
  cases c with
  | memory c => cases h
  | remote c =>
    cases hcached : c.get id with
    | error e' =>
      rw [delete, RemoteCache.delete_of_get_error hcached] at h
      cases h
      exact hcached
    | ok cached =>
      rw [delete, RemoteCache.delete_of_get_ok hcached] at h
      cases h

/-- A view that is found by a code has the code, and is found by an id. -/
theorem getByCode_eq_ok {code : String} (h : c.getByCode code = .ok (some v)) :
    v.node.code = code ∧ ∃ id, c.get id = .ok (some v) := by
  cases c with
  | memory c =>
    obtain ⟨id, -, hid, hcode⟩ := MemoryCache.getByCode?_eq_some.1 (Except.ok.inj h)
    exact ⟨hcode, id, congrArg Except.ok hid⟩
  | remote c =>
    simp only [getByCode, RemoteCache.getByCode] at h
    split at h
    case h_1 => cases h
    case h_2 =>
      split at h
      case h_1 => cases h
      case h_2 id _ =>
        cases hid : c.get id with
        | error e => rw [hid] at h; cases h
        | ok found =>
          rw [hid] at h
          obtain ⟨rfl, hcode⟩ := Option.filter_eq_some_iff.1 (Except.ok.inj h)
          exact ⟨by simpa using hcode, id, hid⟩

end Cache

/-! ## The cache of a hierarchy -/

namespace Hierarchy

variable {h h' h'' : Hierarchy k} {id j : NodeId k} {v v' : NodeView k}

/-- Lose entries of a cache in memory. -/
def lose (h : Hierarchy k) (ids : NodeId k → Bool) (codes : String → Bool) : Hierarchy k :=
  match h.cache with
  | .memory c => { h with cache := .memory { c with
      byId := c.byId.filter fun id _ => !ids id
      byCode := c.byCode.filter fun code _ => !codes code } }
  | .remote _ => h

/-- Lose texts on a server. -/
def expire (h : Hierarchy k) (keys : String → Bool) : Hierarchy k :=
  match h.cache with
  | .memory _ => h
  | .remote c =>
    let texts := c.texts.filter fun key _ => !keys key
    { h with cache := .remote { c with texts } }

/-- Put a view into the cache, if it works. -/
def keep (h : Hierarchy k) (v : NodeView k) : Hierarchy k :=
  match h.cacheOutage with
  | some _ => h
  | none => { h with cache := h.cache.put v }

/-- Drop a view from the cache if there was a change since `seen` ones had been counted. -/
def recheck (h : Hierarchy k) (v : NodeView k) (seen : UInt64) : Hierarchy k :=
  if h.writes = seen then h else h.evict v.node.id

theorem fill_eq (h : Hierarchy k) (v : NodeView k) (seen : UInt64) :
    h.fill v seen = (h.keep v).recheck v seen := by
  cases houtage : h.cacheOutage with
  | some e => simp only [fill, keep, recheck, evict, houtage, ite_self]
  | none => simp only [fill, keep, recheck, houtage]

/-- The view that the cache answers for an id. -/
def kept (h : Hierarchy k) (id : NodeId k) : Option (NodeView k) :=
  match h.cached id with
  | .ok found => found
  | .error _ => none

theorem cached_eq_ok {found : Option (NodeView k)} : h.cached id = .ok found ↔
    h.cacheOutage = none ∧ h.cache.get id = .ok found := by
  unfold cached
  cases h.cacheOutage <;> simp

theorem kept_eq_some : h.kept id = some v ↔ h.cached id = .ok (some v) := by
  unfold kept
  split
  case h_1 he => rw [he, Except.ok.injEq]
  case h_2 he => simp [he]

theorem kept_evict (h : Hierarchy k) (id j : NodeId k) :
    (h.evict id).kept j = if j = id then none else h.kept j := by
  unfold evict
  split
  case h_1 cache houtage hdelete =>
    simp only [kept, cached, houtage, Cache.get_delete hdelete]
    by_cases hj : j = id
    · rw [if_pos hj, if_pos hj]
    · rw [if_neg hj, if_neg hj]
  case h_2 hfails =>
    split
    case isFalse => rfl
    case isTrue hj =>
      -- A cache that fails to drop the view does not answer it either.
      rw [hj, kept, cached]
      cases houtage : h.cacheOutage with
      | some e => rfl
      | none =>
        cases hdelete : h.cache.delete id with
        | ok cache => exact absurd hdelete (hfails cache houtage)
        | error e => simp only [Cache.get_of_delete_error hdelete]

theorem kept_foldl_evict (touched : List (NodeId k)) (j : NodeId k) :
    (touched.foldl evict h).kept j = if j ∈ touched then none else h.kept j := by
  induction touched generalizing h with
  | nil => simp
  | cons id rest ih =>
    rw [List.foldl_cons, ih, kept_evict]
    by_cases hj : j = id <;> simp [hj]

theorem kept_keep (hv : h.cache.GivesBack v) (hk : (h.keep v).kept j = some v') :
    j = v.node.id ∧ v' = v ∨ h.kept j = some v' := by
  rw [kept_eq_some] at hk ⊢
  unfold keep at hk
  split at hk
  case h_1 => exact .inr hk
  case h_2 houtage =>
    refine (Cache.get_put hv (cached_eq_ok.1 hk).2).imp_right fun hget => ?_
    exact cached_eq_ok.2 ⟨houtage, hget⟩

theorem cachedByCode_eq_ok {code : String} (hv : h.cachedByCode code = .ok (some v)) :
    v.node.code = code ∧ ∃ id, h.kept id = some v := by
  unfold cachedByCode at hv
  split at hv
  case h_1 => cases hv
  case h_2 houtage =>
    obtain ⟨hcode, id, hid⟩ := Cache.getByCode_eq_ok hv
    exact ⟨hcode, id, kept_eq_some.2 (cached_eq_ok.2 ⟨houtage, hid⟩)⟩

@[simp] theorem keep_store (h : Hierarchy k) (v : NodeView k) : (h.keep v).store = h.store := by
  unfold keep
  split <;> rfl

@[simp] theorem keep_rival (h : Hierarchy k) (v : NodeView k) : (h.keep v).rival = h.rival := by
  unfold keep
  split <;> rfl

@[simp] theorem keep_writes (h : Hierarchy k) (v : NodeView k) : (h.keep v).writes = h.writes := by
  unfold keep
  split <;> rfl

theorem givesBack_keep : (h.keep v).cache.GivesBack v' ↔ h.cache.GivesBack v' := by
  unfold keep
  split
  case h_1 => rfl
  case h_2 => exact Cache.givesBack_put _

/-- One hierarchy has what another one has in its store, and nothing in its cache that the other one
has not. -/
structure Thins (h h' : Hierarchy k) : Prop where
  refusal : h'.store.refusal = h.store.refusal
  contents : h'.store.contents = h.store.contents
  rival : h'.rival = h.rival
  writes : h'.writes = h.writes
  givesBack : ∀ v, h'.cache.GivesBack v ↔ h.cache.GivesBack v
  kept : ∀ id v, h'.kept id = some v → h.kept id = some v

namespace Thins

theorem trans (hh : h.Thins h') (hh' : h'.Thins h'') : h.Thins h'' where
  refusal := hh'.refusal.trans hh.refusal
  contents := hh'.contents.trans hh.contents
  rival := hh'.rival.trans hh.rival
  writes := hh'.writes.trans hh.writes
  givesBack v := (hh'.givesBack v).trans (hh.givesBack v)
  kept id v hv := hh.kept id v (hh'.kept id v hv)

theorem evict (h : Hierarchy k) (id : NodeId k) : h.Thins (h.evict id) where
  refusal := by rw [evict_store]
  contents := by rw [evict_store]
  rival := by unfold Hierarchy.evict; split <;> rfl
  writes := by unfold Hierarchy.evict; split <;> rfl
  givesBack v := by
    unfold Hierarchy.evict
    split
    case h_1 hdelete => exact Cache.givesBack_delete hdelete
    case h_2 => rfl
  kept j v hv := by
    rw [kept_evict] at hv
    split at hv
    case isTrue => cases hv
    case isFalse => exact hv

theorem foldl_evict (touched : List (NodeId k)) : h.Thins (touched.foldl Hierarchy.evict h) := by
  induction touched generalizing h with
  | nil => exact ⟨rfl, rfl, rfl, rfl, fun _ => .rfl, fun _ _ hv => hv⟩
  | cons id rest ih => exact (evict h id).trans ih

theorem lose (h : Hierarchy k) (ids : NodeId k → Bool) (codes : String → Bool) :
    h.Thins (h.lose ids codes) := by
  unfold Hierarchy.lose
  split
  case h_2 => exact ⟨rfl, rfl, rfl, rfl, fun _ => .rfl, fun _ _ hv => hv⟩
  case h_1 c hm =>
    refine ⟨rfl, rfl, rfl, rfl, fun v => by rw [hm]; rfl, fun id v hv => ?_⟩
    rw [kept_eq_some, cached_eq_ok] at hv ⊢
    refine ⟨hv.1, ?_⟩
    have hfound := Except.ok.inj hv.2
    rw [MemoryCache.get?, Table.get?_filter, Option.filter_eq_some_iff] at hfound
    rw [hm]
    exact congrArg Except.ok hfound.1

theorem expire (h : Hierarchy k) (keys : String → Bool) : h.Thins (h.expire keys) := by
  unfold Hierarchy.expire
  split
  case h_1 => exact ⟨rfl, rfl, rfl, rfl, fun _ => .rfl, fun _ _ hv => hv⟩
  case h_2 c hm =>
    refine ⟨rfl, rfl, rfl, rfl, fun v => by rw [hm]; rfl, fun id v hv => ?_⟩
    rw [kept_eq_some, cached_eq_ok] at hv ⊢
    refine ⟨hv.1, ?_⟩
    rw [hm]
    exact RemoteCache.get_of_get_filter hv.2

end Thins

end Hierarchy

end Lineage
