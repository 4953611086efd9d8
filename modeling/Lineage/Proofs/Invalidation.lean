import Lineage.Proofs.Caching

/-!
# What an invalidation takes away

A cache finds a view by its id and by its code, under two keys that are written and lost apart: the
key of a code may lead to a node that has taken the code over, while the view of the node that had
it before is still kept. Dropping that view must not hide the other one.

* `Cache.Drops`: the views of an id are gone, and no other ones.
* `MemoryCache.run_filed`: views are kept under their own ids, whatever was put, dropped or lost.
* `MemoryCache.drops`, `RemoteCache.drops_iff`: what that means in memory and on a server.
* `Cache.invalidated_drops`: in memory an invalidation drops just the views of an id. On a server
  it does unless the text of the id is no view, or the code of the view leads to another node.
-/

namespace Lineage

variable {k : Kind} {id j : NodeId k} {code : String} {v : NodeView k}

namespace Cache

/-- The cache after an invalidation. One that fails leaves it as it is. -/
def invalidated (c : Cache k) (id : NodeId k) : Cache k := (c.delete id).toOption.getD c

/-- The views of an id are gone: there is none under the id, and all that was found of other nodes,
by id or by code, is still found. -/
structure Drops (before after : Cache k) (id : NodeId k) : Prop where
  gone : after.get id = .ok none
  others : ∀ j, j ≠ id → after.get j = before.get j
  codes : ∀ code v, before.getByCode code = .ok (some v) → v.node.id ≠ id →
    after.getByCode code = .ok (some v)

end Cache

/-! ## In memory -/

namespace MemoryCache

variable {c : MemoryCache k}

/-- What may happen to a cache in memory: entries get lost at any time. -/
inductive Step (k : Kind)
  | put (v : NodeView k)
  | delete (id : NodeId k)
  | lose (ids : NodeId k → Bool) (codes : String → Bool)

/-- The cache after a step. -/
def next (c : MemoryCache k) : Step k → MemoryCache k
  | .put v => c.put v
  | .delete id => c.delete id
  | .lose ids codes => { c with
      byId := c.byId.filter fun id _ => !ids id
      byCode := c.byCode.filter fun code _ => !codes code }

/-- The cache after steps. -/
def run (c : MemoryCache k) (steps : List (Step k)) : MemoryCache k := steps.foldl next c

/-- Every view is kept under its own id. -/
def Filed (c : MemoryCache k) : Prop := ∀ id v, c.byId.get? id = some v → v.node.id = id

theorem Filed.empty (retains : Bool) : Filed ({ retains } : MemoryCache k) := by
  intro id v hv
  cases hv

theorem Filed.next (h : c.Filed) (step : Step k) : (c.next step).Filed := by
  intro id v hv
  cases step with
  | put w =>
    rw [MemoryCache.next, put] at hv
    split at hv
    case isTrue =>
      rw [Table.get?_insert] at hv
      split at hv
      case isTrue hid => exact Option.some.inj hv ▸ hid.symm
      case isFalse => exact h id v hv
    case isFalse => exact h id v hv
  | delete i =>
    rw [MemoryCache.next, byId_delete] at hv
    split at hv
    case isTrue => cases hv
    case isFalse => exact h id v hv
  | lose ids codes =>
    rw [MemoryCache.next, Table.get?_filter, Option.filter_eq_some_iff] at hv
    exact h id v hv.1

theorem run_filed (h : c.Filed) (steps : List (Step k)) : (c.run steps).Filed := by
  induction steps generalizing c with
  | nil => exact h
  | cons step rest ih => exact ih (h.next step)

/-- A code that leads to another id still does. -/
theorem byCode_delete (h : c.byCode.get? code = some j) (hj : j ≠ id) :
    (c.delete id).byCode.get? code = some j := by
  unfold delete
  split
  case h_1 => exact h
  case h_2 v _ =>
    dsimp only
    split
    case isTrue hleads =>
      have hne : code ≠ v.node.code := by
        rintro rfl
        exact hj (Option.some.inj (h.symm.trans hleads))
      rw [Table.get?_erase_of_ne hne, h]
    case isFalse => exact h

theorem drops (h : c.Filed) (id : NodeId k) :
    Cache.Drops (.memory c) ((Cache.memory c).invalidated id) id where
  gone := congrArg Except.ok <| by rw [get?, byId_delete, if_pos rfl]
  others j hj := congrArg Except.ok <| by rw [get?, get?, byId_delete, if_neg hj]
  codes code v hv hid := by
    obtain ⟨j, hleads, hview, hcode⟩ := getByCode?_eq_some.1 (Except.ok.inj hv)
    have hj : j ≠ id := h j v hview ▸ hid
    refine congrArg Except.ok (getByCode?_eq_some.2 ⟨j, byCode_delete hleads hj, ?_, hcode⟩)
    rw [byId_delete, if_neg hj, hview]

end MemoryCache

/-! ## On a server -/

namespace RemoteCache

variable {c : RemoteCache k} {cached : Option (NodeView k)}

/-- A code that is not the view's does not match it, so it makes no difference that the view is
gone. -/
theorem filter_get_forget (h : c.get id = .ok cached)
    (hcode : code ∉ cached.map (·.node.code)) (j : NodeId k) :
    (get { c with texts := forget c.texts id cached } j).map
        (fun v => v.filter fun v => v.node.code == code) =
      (c.get j).map fun v => v.filter fun v => v.node.code == code := by
  by_cases hj : j = id
  · have hnone : cached.filter (·.node.code == code) = none := by
      rw [Option.filter_eq_none_iff]
      intro v hv
      rw [beq_iff_eq]
      exact fun he => hcode (Option.mem_map.2 ⟨v, hv, he⟩)
    rw [hj, get_forget_self, h]
    exact congrArg Except.ok hnone.symm
  · rw [get_forget_of_ne c hj]

/-- The code of the view is forgotten, whatever it led to. -/
theorem getByCode_forget (h : c.get id = .ok cached) (code : String) :
    getByCode { c with texts := forget c.texts id cached } code =
      if code ∈ cached.map (·.node.code) then .ok none else c.getByCode code := by
  split
  case isTrue hcode =>
    obtain ⟨v, rfl, rfl⟩ := Option.mem_map.1 hcode
    have htext : (forget c.texts id (some v)).get? (codeKey k.name v.node.code) = none :=
      Table.get?_erase_self ..
    rw [getByCode, htext]
  case isFalse hcode =>
    have hkey : ∀ v ∈ cached, codeKey k.name code ≠ codeKey k.name v.node.code := fun v hv he =>
      hcode (Option.mem_map.2 ⟨v, hv, (codeKey_inj.1 he).symm⟩)
    have htext := get?_forget_of_ne (t := c.texts) (idKey_ne_codeKey k.name code id.toInt).symm hkey
    simp only [getByCode, htext, filter_get_forget h hcode]

theorem invalidated_of_get_ok (h : c.get id = .ok cached) :
    (Cache.remote c).invalidated id = .remote { c with texts := forget c.texts id cached } := by
  rw [Cache.invalidated, Cache.delete, delete_of_get_ok h]
  rfl

theorem invalidated_of_get_error {e : CacheError} (h : c.get id = .error e) :
    (Cache.remote c).invalidated id = .remote c := by
  rw [Cache.invalidated, Cache.delete, delete_of_get_error h]
  rfl

/-- An invalidation drops just the views of an id iff the text of the id, if there is one, is a
view, and the code of the view does not lead to a view of another node. -/
theorem drops_iff : Cache.Drops (.remote c) ((Cache.remote c).invalidated id) id ↔
    ∃ cached, c.get id = .ok cached ∧ ∀ v ∈ cached, ∀ w,
      c.getByCode v.node.code = .ok (some w) → w.node.id = id := by
  cases hget : c.get id with
  | error e =>
    rw [invalidated_of_get_error hget]
    refine ⟨fun h => ?_, nofun⟩
    cases hget.symm.trans h.gone
  | ok cached =>
    rw [invalidated_of_get_ok hget]
    constructor
    · refine fun h => ⟨cached, rfl, fun v hv w hw => ?_⟩
      by_contra hid
      have hlost := getByCode_forget hget v.node.code
      rw [if_pos (Option.mem_map_of_mem _ hv)] at hlost
      cases hlost.symm.trans (h.codes _ w hw hid)
    · rintro ⟨_, ⟨⟩, hleads⟩
      refine ⟨get_forget_self c id cached, fun j hj => get_forget_of_ne c hj cached,
        fun code w hw hid => ?_⟩
      have hcode : code ∉ cached.map (·.node.code) := by
        intro hcode
        obtain ⟨v, hv, rfl⟩ := Option.mem_map.1 hcode
        exact hid (hleads v hv w hw)
      exact (getByCode_forget hget code).trans ((if_neg hcode).trans hw)

end RemoteCache

/-! ## Either -/

namespace Cache

/-- In memory, after whatever was put, dropped and lost, an invalidation drops just the views of an
id. On a server, whatever is kept there, an invalidation of a text that is no view does nothing.
Any other one leaves what is found by other ids, and by codes that are not the dropped view's; what
that code led to is not found by it any more. -/
theorem invalidated_drops :
    (∀ (retains : Bool) (steps : List (MemoryCache.Step k)) (id : NodeId k),
      let c := MemoryCache.run { retains } steps
      Drops (.memory c) ((memory c).invalidated id) id) ∧
    (∀ (c : RemoteCache k) (id : NodeId k),
      (∃ e, c.get id = .error e ∧ (remote c).invalidated id = .remote c) ∨
        ∃ cached d, c.get id = .ok cached ∧ (remote c).invalidated id = .remote d ∧
          d.get id = .ok none ∧ (∀ j, j ≠ id → d.get j = c.get j) ∧
          ∀ code, d.getByCode code =
            if code ∈ cached.map (·.node.code) then .ok none else c.getByCode code) ∧
    ∀ (c : RemoteCache k) (id : NodeId k),
      Drops (.remote c) ((remote c).invalidated id) id ↔
        ∃ cached, c.get id = .ok cached ∧ ∀ v ∈ cached, ∀ w,
          c.getByCode v.node.code = .ok (some w) → w.node.id = id := by
  refine ⟨fun retains steps id => ?memory, fun c id => ?server, fun c id => RemoteCache.drops_iff⟩
  case memory => exact MemoryCache.drops (MemoryCache.run_filed (.empty retains) steps) id
  case server =>
    cases hget : c.get id with
    | error e => exact .inl ⟨e, rfl, RemoteCache.invalidated_of_get_error hget⟩
    | ok cached =>
      exact .inr ⟨cached, _, rfl, RemoteCache.invalidated_of_get_ok hget,
        RemoteCache.get_forget_self c id cached,
        fun j hj => RemoteCache.get_forget_of_ne c hj cached, RemoteCache.getByCode_forget hget⟩

/-- A node has taken over the code of another one whose view is still kept. When that view is
dropped the node is found by the code in memory, but on a server it is not. A text that is no view
cannot be dropped from a server at all. -/
theorem taken_code_lost :
    let v : NodeView ⟨"tag"⟩ := ⟨{ id := ⟨1⟩, code := "red", name := "R" }, false⟩
    let w : NodeView ⟨"tag"⟩ := ⟨{ id := ⟨2⟩, code := "red", name := "R" }, false⟩
    let m : MemoryCache ⟨"tag"⟩ := (({} : MemoryCache ⟨"tag"⟩).put v).put w
    let c : RemoteCache ⟨"tag"⟩ := (({} : RemoteCache ⟨"tag"⟩).put v).put w
    let d : RemoteCache ⟨"tag"⟩ := { texts := Table.insert ∅ (idKey "tag" 1) ("junk", 0) }
    ((m.delete ⟨1⟩).getByCode? "red").map (·.node.id) = some ⟨2⟩ ∧
      (c.getByCode "red").toOption.join.map (·.node.id) = some ⟨2⟩ ∧
      ((c.delete ⟨1⟩).toOption.map fun c => (c.getByCode "red").toOption.join.isSome) =
        some false ∧
      ¬ Drops (.remote c) ((remote c).invalidated ⟨1⟩) ⟨1⟩ ∧
      (d.delete ⟨1⟩).toOption.isSome = false ∧
      ¬ Drops (.remote d) ((remote d).invalidated ⟨1⟩) ⟨1⟩ := by
  intro v w m c d
  have hleads : (c.getByCode "red").toOption.join.map (·.node.id) = some ⟨2⟩ := by decide +kernel
  refine ⟨by decide +kernel, hleads, by decide +kernel, fun h => ?_, by decide +kernel, fun h => ?_⟩
  · obtain ⟨cached, hcached, hown⟩ := RemoteCache.drops_iff.1 h
    have hcode : (c.get ⟨1⟩).toOption.join.map (·.node.code) = some "red" := by decide +kernel
    rw [hcached] at hcode
    obtain ⟨v', hv', hred⟩ := Option.map_eq_some_iff.1 hcode
    obtain ⟨w', hw', hid⟩ := Option.map_eq_some_iff.1 hleads
    cases hfound : c.getByCode "red" with
    | error e =>
      rw [hfound] at hw'
      cases hw'
    | ok found =>
      rw [hfound] at hw'
      obtain rfl : found = some w' := hw'
      have hsame : w'.node.id = ⟨1⟩ := hown v' hv' w' (hred ▸ hfound)
      cases hid.symm.trans hsame
  · obtain ⟨cached, hcached, -⟩ := RemoteCache.drops_iff.1 h
    have hjunk : (d.get ⟨1⟩).toOption.isSome = false := by decide +kernel
    rw [hcached] at hjunk
    cases hjunk

end Cache

end Lineage
