import Lineage.Proofs.Access
import Lineage.Proofs.Refinement
import Lineage.Hierarchy.Lookup

/-!
# Which nodes count in an access check

The walks of an access check go over active and archived nodes alike and answer the active ones. No
walk answers for the nodes from which it starts: a role or a permission that a principal holds, or
that is granted to a role, counts whether it is active or not.

* `Contents.Below`: what a walk over a hierarchy answers (`Hierarchy.view_walks`).
* `Access.Dormant`: the permissions that come from something that is not active.
* `Access.run_activity`: what a principal has beyond what active nodes give it.
-/

open Relation

namespace Lineage

variable {k : Kind}

/-! ## Walks over a hierarchy -/

namespace Contents

/-- A node is active. -/
def Active (s : Contents k) (id : NodeId k) : Prop := ∃ node, s.active.get? id = some node

/-- An active node lies below another one; the nodes between them and the upper one itself may be
archived. -/
def Below (s : Contents k) (x y : NodeId k) : Prop :=
  s.Active y ∧ TransGen (Closure.Edge s.rows) x y

variable {s : Contents k} {g : Dag k} {x y id : NodeId k}

theorem contains_active : s.active.contains id = true ↔ s.Active id := Table.contains_iff

theorem transGen_below : TransGen s.Below x y ↔ s.Below x y := by
  refine ⟨fun h => ?_, .single⟩
  induction h with
  | single h => exact h
  | tail _ h ih => exact ⟨h.1, ih.2.trans h.2⟩

/-- The rows of a positive depth are the pairs of which the first lies above the second. -/
theorem Holds.exists_row_iff (h : s.Holds g) :
    (∃ c, s.paths.get? (x, y) = some c ∧ 1 ≤ c) ↔ TransGen (Closure.Edge s.rows) x y := by
  simp only [show Closure.Edge s.rows = g.edge from funext₂ fun _ _ => propext h.edge_iff]
  constructor
  · rintro ⟨c, hc, hpos⟩
    rcases reflTransGen_iff_eq_or_transGen.1 (h.connected.1 ⟨c, hc⟩).2 with rfl | hlt
    · have hzero : s.paths.get? (y, y) = some 0 := h.get?_eq_zero.2 ⟨(h.connected.1 ⟨c, hc⟩).1, rfl⟩
      obtain rfl := Option.some.inj (hc.symm.trans hzero)
      exact absurd hpos (by decide)
    · exact hlt
  · intro hlt
    obtain ⟨z, e, -⟩ := TransGen.head'_iff.1 hlt
    obtain ⟨c, hc⟩ := h.connected.2 ⟨(h.wellFormed.ends x z e).1, hlt.to_reflTransGen⟩
    have hne : c.toNat ≠ 0 := by
      intro hzero
      obtain rfl : c = 0 := UInt32.toNat_inj.1 hzero
      obtain rfl := (h.get?_eq_zero.1 hc).2
      exact h.wellFormed.acyclic x hlt
    exact ⟨c, hc, UInt32.le_iff_toNat_le.2 (Nat.one_le_iff_ne_zero.2 hne)⟩

end Contents

theorem Work.descendants_apply {s : MemoryStore k} (hs : s.refusal = none) {t : Contents k}
    {g : Dag k} (h : t.Holds g) (ids : List (NodeId k)) :
    ∃ l, descendants ids s t = .ok (l, t) ∧ ∀ y, y ∈ l ↔ ∃ x ∈ ids, t.Below x y := by
  unfold descendants
  simp only [bind_apply, ask_apply hs, Contents.perform, settled_ok, ok_bind, pure_apply]
  refine ⟨_, rfl, fun y => ?_⟩
  simp only [List.mem_map, List.mem_filterMap, KeySet.mem_keys_ofList, List.mem_filter,
    Bool.and_eq_true, decide_eq_true_eq, List.contains_iff_mem, Contents.Below,
    ← h.exists_row_iff]
  constructor
  · rintro ⟨node, ⟨y, ⟨⟨x, y, c⟩, ⟨hp, hc, hx⟩, rfl⟩, hn⟩, rfl⟩
    rw [h.wellFormed.own y node (Dag.node?_of_active (h.active ▸ hn))]
    exact ⟨x, hx, ⟨node, hn⟩, c, DepthMap.mk_mem_rows.1 hp, hc⟩
  · rintro ⟨x, hx, ⟨node, hn⟩, c, hp, hc⟩
    exact ⟨node, ⟨y, ⟨⟨x, y, c⟩, ⟨DepthMap.mk_mem_rows.2 hp, hc, hx⟩, rfl⟩, hn⟩,
      h.wellFormed.own y node (Dag.node?_of_active (h.active ▸ hn))⟩

namespace Hierarchy

variable {h : Hierarchy k} {g : Dag k} (hr : h.store.refusal = none)
  (hc : h.store.contents.Holds g)

include hr hc

/-- A walk from some nodes comes to an end unless the store is locked. -/
theorem view_descendantIds (ids : List (NodeId k)) :
    (ids = [] ∨ h.store.locked = false) ∧ (∃ l, h.view.descendantIds ids = .ok l ∧
        ∀ y, y ∈ l ↔ ∃ x ∈ ids, h.store.contents.Below x y) ∨
      ¬ (ids = [] ∨ h.store.locked = false) ∧ ∃ e, h.view.descendantIds ids = .error e := by
  cases ids with
  | nil => exact .inl ⟨.inl rfl, [], rfl, by simp⟩
  | cons x rest =>
    simp only [view, descendantIds, List.isEmpty_cons, Bool.false_eq_true, if_false]
    cases hl : h.store.locked with
    | true =>
      rw [look_of_locked hr hl]
      exact .inr ⟨by simp, _, rfl⟩
    | false =>
      obtain ⟨l, hwork, hmem⟩ := Work.descendants_apply hr hc (x :: rest)
      refine .inl ⟨.inr rfl, l, ?_, hmem⟩
      rw [look_of_open hr hl hwork]
      rfl

theorem view_walks : h.view.Walks h.store.contents.Below := by
  intro ids l hl y
  simp only [Contents.transGen_below]
  rcases view_descendantIds hr hc ids with ⟨-, l', hl', hmem⟩ | ⟨-, e, he⟩
  · obtain rfl := Except.ok.inj (hl'.symm.trans hl)
    exact hmem y
  · rw [he] at hl
    cases hl

end Hierarchy

theorem KeySet.ext_keys {κ : Type} [Ord κ] [Std.TransOrd κ] [Std.LawfulEqOrd κ] {s t : KeySet κ}
    (h : ∀ x, x ∈ s.keys ↔ x ∈ t.keys) : s = t := by
  refine Table.ext_get? fun x => Option.ext fun _ => ?_
  have hx := h x
  rw [Table.mem_keys, Table.mem_keys] at hx
  exact ⟨fun hs => (hx.1 ⟨_, hs⟩).elim fun _ ht => ht, fun ht => (hx.2 ⟨_, ht⟩).elim fun _ hs => hs⟩

/-! ## What counts -/

/-- The principal without the roles and the permissions that are not active. -/
def Principal.activeIn (principal : Principal) (s : Contents .role) (t : Contents .permission) :
    Principal :=
  { principal with
    roles := principal.roles.filter fun r => s.active.contains r
    permissions := principal.permissions.filter fun q => t.active.contains q }

namespace Access

variable (principal : Principal) (grants : RoleId → List PermissionId)

/-- The grants without the permissions that are not active. -/
def activeGrants (t : Contents .permission) (r : RoleId) : List PermissionId :=
  (grants r).filter fun q => t.active.contains q

/-- A permission comes from one that is not active, or from a held role that is not: it is, or lies
below, one that is held directly or granted to a held role or to a role below it. -/
def Dormant (s : Contents .role) (t : Contents .permission) (p : PermissionId) : Prop :=
  ∃ q, ReflTransGen t.Below q p ∧ (q ∈ principal.permissions ∧ ¬ t.Active q ∨
    ∃ r ∈ principal.roles, ∃ lower, ReflTransGen s.Below r lower ∧ q ∈ grants lower ∧
      ¬ (s.Active r ∧ t.Active q))

variable {principal grants} {s : Contents .role} {t : Contents .permission}

theorem granted_activeIn {q : PermissionId} :
    Granted (principal.activeIn s t) s.Below (activeGrants grants t) q ↔
      q ∈ principal.permissions ∧ t.Active q ∨
        ∃ r ∈ principal.roles, ∃ lower, ReflTransGen s.Below r lower ∧ q ∈ grants lower ∧
          s.Active r ∧ t.Active q := by
  simp only [Granted, Held, Principal.activeIn, activeGrants, List.mem_filter,
    Contents.contains_active]
  refine or_congr_right ⟨?_, ?_⟩
  · rintro ⟨lower, ⟨r, ⟨hr, hactive⟩, hlower⟩, hq, hqactive⟩
    exact ⟨r, hr, lower, hlower, hq, hactive, hqactive⟩
  · rintro ⟨r, hr, lower, hlower, hq, hactive, hqactive⟩
    exact ⟨lower, ⟨r, ⟨hr, hactive⟩, hlower⟩, hq, hqactive⟩

/-- Whatever a principal has comes from active nodes only, or from some that are not. -/
theorem entitled_iff {p : PermissionId} : Entitled principal s.Below t.Below grants p ↔
    Entitled (principal.activeIn s t) s.Below t.Below (activeGrants grants t) p ∨
      Dormant principal grants s t p := by
  simp only [Entitled, granted_activeIn, Dormant]
  constructor
  · rintro ⟨q, hq | ⟨lower, ⟨r, hr, hlower⟩, hq⟩, hp⟩
    · by_cases hactive : t.Active q
      · exact .inl ⟨q, .inl ⟨hq, hactive⟩, hp⟩
      · exact .inr ⟨q, hp, .inl ⟨hq, hactive⟩⟩
    · by_cases hactive : s.Active r ∧ t.Active q
      · exact .inl ⟨q, .inr ⟨r, hr, lower, hlower, hq, hactive⟩, hp⟩
      · exact .inr ⟨q, hp, .inr ⟨r, hr, lower, hlower, hq, hactive⟩⟩
  · rintro (⟨q, ⟨hq, -⟩ | ⟨r, hr, lower, hlower, hq, -⟩, hp⟩ |
      ⟨q, hp, ⟨hq, -⟩ | ⟨r, hr, lower, hlower, hq, -⟩⟩)
    · exact ⟨q, .inl hq, hp⟩
    · exact ⟨q, .inr ⟨lower, ⟨r, hr, hlower⟩, hq⟩, hp⟩
    · exact ⟨q, .inl hq, hp⟩
    · exact ⟨q, .inr ⟨lower, ⟨r, hr, hlower⟩, hq⟩, hp⟩

/-! ## Checks over hierarchies -/

section Hierarchies

variable {roles : Hierarchy .role} {permissions : Hierarchy .permission}
  {g : Dag .role} {g' : Dag .permission}
  (hroles : roles.store.refusal = none) (hg : roles.store.contents.Holds g)
  (hpermissions : permissions.store.refusal = none) (hg' : permissions.store.contents.Holds g')

include hroles hg hpermissions hg'

variable (principal grants) in
/-- A check comes to an answer unless it has to ask a hierarchy whose store is locked. -/
theorem effective_ok_iff :
    (∃ held, effective principal roles.view permissions.view grants = .ok held) ↔
      (principal.roles = [] ∨ roles.store.locked = false) ∧
        ((∀ q, ¬ Granted principal roles.store.contents.Below grants q) ∨
          permissions.store.locked = false) := by
  have hall := effective_eq principal grants (Hierarchy.view_walks hroles hg)
    (Hierarchy.view_walks hpermissions hg')
  rcases Hierarchy.view_descendantIds hroles hg principal.roles with
    ⟨hopen, l, hl, -⟩ | ⟨hclosed, e, he⟩
  · rw [hl] at hall
    obtain ⟨asked, hasked, hall⟩ := hall
    have hnone : asked = [] ↔ ∀ q, ¬ Granted principal roles.store.contents.Below grants q := by
      simp only [List.eq_nil_iff_forall_not_mem, hasked]
    rw [and_iff_right hopen, ← hnone]
    rcases Hierarchy.view_descendantIds hpermissions hg' asked with
      ⟨hopen', l', hl', -⟩ | ⟨hclosed', e, he⟩
    · rw [hl'] at hall
      exact iff_of_true (hall.imp fun _ h => h.1) hopen'
    · rw [he] at hall
      exact iff_of_false (fun ⟨held, h⟩ => by rw [hall] at h; cases h) hclosed'
  · rw [he] at hall
    exact iff_of_false (fun ⟨held, h⟩ => by rw [hall] at h; cases h) fun h => hclosed h.1

/-- A check that comes to an answer does so without what is not active. -/
theorem effective_activeIn {held : KeySet PermissionId}
    (h : effective principal roles.view permissions.view grants = .ok held) :
    let s := roles.store.contents
    let t := permissions.store.contents
    ∃ counted, effective (principal.activeIn s t) roles.view permissions.view
        (activeGrants grants t) = .ok counted ∧
      ∀ p, p ∈ held.keys ↔ p ∈ counted.keys ∨ Dormant principal grants s t p := by
  have hR := Hierarchy.view_walks hroles hg
  have hP := Hierarchy.view_walks hpermissions hg'
  obtain ⟨hopen, hopen'⟩ :=
    (effective_ok_iff principal grants hroles hg hpermissions hg').1 ⟨held, h⟩
  obtain ⟨counted, hcounted⟩ := (effective_ok_iff
    (principal.activeIn roles.store.contents permissions.store.contents)
    (activeGrants grants permissions.store.contents) hroles hg hpermissions hg').2 <| by
      refine ⟨hopen.imp_left fun hnil => ?_, hopen'.imp_left fun hnone q hq => hnone q ?_⟩
      · rw [Principal.activeIn, hnil, List.filter_nil]
      · rcases granted_activeIn.1 hq with ⟨hq, -⟩ | ⟨r, hr, lower, hlower, hq, -⟩
        · exact .inl hq
        · exact .inr ⟨lower, ⟨r, hr, hlower⟩, hq⟩
  refine ⟨counted, hcounted, fun p => ?_⟩
  rw [mem_effective hR hP h, mem_effective hR hP hcounted, entitled_iff]

end Hierarchies

/-- In all states to which operations lead from empty stores, a check answers the permissions that
active nodes give a principal and, beside them, those that come from nodes that are not active: from
roles and permissions that are held or granted although they are archived or do not exist. The two
answers are the same exactly if what comes from such nodes comes from active ones as well. -/
theorem run_activity (h : Hierarchy .role) (hstart : h.store = {})
    (steps : List (Surroundings .role × Operation .role))
    (hfits : ∀ n, (h.run (steps.take n)).2.store.contents.Fits)
    (j : Hierarchy .permission) (jstart : j.store = {})
    (steps' : List (Surroundings .permission × Operation .permission))
    (jfits : ∀ n, (j.run (steps'.take n)).2.store.contents.Fits)
    (principal : Principal) (grants : RoleId → List PermissionId) :
    let roles := (h.run steps).2
    let permissions := (j.run steps').2
    let s := roles.store.contents
    let t := permissions.store.contents
    (roles.store.locked = false → permissions.store.locked = false →
      ∃ held, effective principal roles.view permissions.view grants = .ok held) ∧
    ∀ held, effective principal roles.view permissions.view grants = .ok held →
      ∃ counted, effective (principal.activeIn s t) roles.view permissions.view
          (activeGrants grants t) = .ok counted ∧
        (∀ p, p ∈ held.keys ↔ p ∈ counted.keys ∨ Dormant principal grants s t p) ∧
        (held = counted ↔ ∀ p, Dormant principal grants s t p → p ∈ counted.keys) := by
  have hr : h.store.refusal = none := by rw [hstart]
  have jr : j.store.refusal = none := by rw [jstart]
  obtain ⟨g, hg⟩ := Hierarchy.run_holds steps hr (g := {}) (by rw [hstart]; exact .empty) hfits
  obtain ⟨g', hg'⟩ := Hierarchy.run_holds steps' jr (g := {}) (by rw [jstart]; exact .empty) jfits
  have hroles := (h.run_alike steps).refusal.trans hr
  have hpermissions := (j.run_alike steps').refusal.trans jr
  refine ⟨fun hopen hopen' => (effective_ok_iff principal grants hroles hg hpermissions hg').2
    ⟨.inr hopen, .inr hopen'⟩, fun held hheld => ?_⟩
  obtain ⟨counted, hcounted, hmem⟩ := effective_activeIn hroles hg hpermissions hg' hheld
  refine ⟨counted, hcounted, hmem, fun heq p hp => ?_, fun hall => KeySet.ext_keys fun p => ?_⟩
  · rw [← heq]
    exact (hmem p).2 (.inr hp)
  · rw [hmem, or_iff_left_of_imp (hall p)]

/-- Role 1 is archived. -/
def retire : List (Surroundings .role × Operation .role) :=
  [(.calm, .add { code := "admin", name := "Admin" }), (.calm, .archive ⟨1⟩)]

/-- Permission 1 is active. -/
def provide : List (Surroundings .permission × Operation .permission) :=
  [(.calm, .add { code := "inventory.read", name := "Read" })]

def retiredRoles : Hierarchy .role := (Hierarchy.run { cache := .memory {} } retire).2

def providedPermissions : Hierarchy .permission :=
  (Hierarchy.run { cache := .memory {} } provide).2

/-- Someone who holds role 1. -/
def former : Principal := { id := default, roles := [⟨1⟩] }

/-- Role 1 is granted permission 1. -/
def formerGrants (r : RoleId) : List PermissionId := if r = ⟨1⟩ then [⟨1⟩] else []

/-- What the archived role is granted comes from nothing that is active. -/
theorem run_activity_former : Dormant former formerGrants retiredRoles.store.contents
    providedPermissions.store.contents ⟨1⟩ := by
  obtain ⟨-, hall⟩ := run_activity { cache := .memory {} } rfl retire
    (Hierarchy.fits_of_le_length (by decide +kernel)) { cache := .memory {} } rfl provide
    (Hierarchy.fits_of_le_length (by decide +kernel)) former formerGrants
  have hheld : effective former retiredRoles.view providedPermissions.view formerGrants =
      .ok (KeySet.ofList [⟨1⟩]) := by
    decide +kernel
  have hcounts : effective (former.activeIn retiredRoles.store.contents
      providedPermissions.store.contents) retiredRoles.view providedPermissions.view
      (activeGrants formerGrants providedPermissions.store.contents) = .ok ∅ := by
    decide +kernel
  obtain ⟨counted, hcounted, hmem, -⟩ := hall _ hheld
  obtain rfl := Except.ok.inj (hcounted.symm.trans hcounts)
  rcases (hmem ⟨1⟩).1 (KeySet.mem_keys_ofList.2 List.mem_cons_self) with hnone | hdormant
  · exact absurd hnone List.not_mem_nil
  · exact hdormant

/-- The archived role gives its holder a permission that the holder does not have without it. -/
theorem retired_role_counts :
    retiredRoles.store.contents.active.contains ⟨1⟩ = false ∧
      effective former retiredRoles.view providedPermissions.view formerGrants =
        .ok (KeySet.ofList [⟨1⟩]) ∧
      effective (former.activeIn retiredRoles.store.contents providedPermissions.store.contents)
          retiredRoles.view providedPermissions.view
          (activeGrants formerGrants providedPermissions.store.contents) = .ok ∅ := by
  decide +kernel

end Access

end Lineage
