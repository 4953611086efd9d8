import Lineage.Access
import Lineage.Proofs.Closure

/-!
# Access checks are sound and complete

Over views that walk a graph of roles and a graph of permissions, the effective permissions of a
principal are those that the two graphs and the grants lead to, no more and no fewer. A lookup that
fails ends a check with its failure.

* `View.Walks`: what a view answers is what the edges of a graph lead to. The view of given edges
  walks them (`View.ofEdges_walks`).
* `Access.Granted`, `Access.Entitled`: the permissions that a principal has by a role or directly,
  and those below them.
* `Access.mem_effective`: the effective permissions.
* `Access.check_correct`: what a check answers, lookup by lookup.
-/

open Relation

namespace Lineage

variable {k : Kind}

/-- Whatever the view answers about some nodes is what lies at least one edge below any of them. -/
def View.Walks (v : View k) (E : NodeId k → NodeId k → Prop) : Prop :=
  ∀ ids l, v.descendantIds ids = .ok l → ∀ y, y ∈ l ↔ ∃ x ∈ ids, TransGen E x y

theorem NodeId.toInt_lt {a b : NodeId k} (h : compare a b = .lt) : a.toInt < b.toInt := by
  have h : compare a.raw b.raw = .lt := h
  exact Int64.lt_iff_toInt_lt.1 (Std.compare_eq_lt.1 h)

/-- The members of a set of ids are listed in ascending order. -/
theorem KeySet.keys_ascending (s : KeySet (NodeId k)) :
    s.keys.Pairwise fun a b => a.toInt < b.toInt := by
  rw [Table.keys, List.pairwise_map]
  exact s.ascending.imp NodeId.toInt_lt

/-! ## The view of given edges -/

namespace View

variable {es : List (NodeId k × NodeId k)} {ids : List (NodeId k)} {y : NodeId k}

theorem mem_below : y ∈ below es ids ↔ ∃ x ∈ ids, TransGen (fun u v => (u, v) ∈ es) x y := by
  -- The search starts from the nodes one edge below `ids`, which count as level zero.
  have hfirst : ∀ y, y ∈ Closure.nextFrontier es ∅ ids ↔ ∃ x ∈ ids, (x, y) ∈ es := fun y => by
    rw [Closure.mem_nextFrontier, Table.get?_empty, and_iff_left rfl]
  have hstart : Closure.Knows (fun u v => (u, v) ∈ es) (· ∈ Closure.nextFrontier es ∅ ids) 1 0
      ((Closure.nextFrontier es ∅ ids).foldl (fun s y => s.insert y 1) ∅) := by
    intro y d
    rw [Closure.get?_foldl_mark, Table.get?_empty]
    constructor
    · intro h
      split at h
      case isTrue hy => exact ⟨0, le_rfl, Closure.level_zero_iff.2 hy, (Option.some.inj h).symm⟩
      case isFalse => cases h
    · rintro ⟨m, hm, hl, rfl⟩
      obtain rfl := Nat.le_zero.1 hm
      rw [if_pos (Closure.level_zero_iff.1 hl)]
      rfl
  have hlength : (Closure.unseen es ((Closure.nextFrontier es ∅ ids).foldl
      (fun s y => s.insert y 1) ∅)).length ≤ es.length := by
    simpa [Closure.unseen] using List.length_filter_le _ (es.map (·.2))
  have hsearch := Closure.get?_spread (fun _ _ => Iff.rfl) hstart
    (fun _ => Closure.level_zero_iff.symm) hlength y
  rw [below, Table.mem_keys]
  constructor
  · rintro ⟨d, hd⟩
    obtain ⟨m, ⟨⟨z, hz, hw⟩, -⟩, -⟩ := (hsearch d).1 hd
    obtain ⟨x, hx, he⟩ := (hfirst z).1 hz
    exact ⟨x, hx, TransGen.head'_iff.2 ⟨z, he, hw.reflTransGen⟩⟩
  · rintro ⟨x, hx, h⟩
    obtain ⟨z, he, hz⟩ := TransGen.head'_iff.1 h
    obtain ⟨n, hw⟩ := reflTransGen_iff_walk.1 hz
    obtain ⟨m, -, hl⟩ := Closure.exists_level (S := (· ∈ Closure.nextFrontier es ∅ ids))
      ((hfirst z).2 ⟨x, hx, he⟩) hw
    exact ⟨_, (hsearch _).2 ⟨m, hl, rfl⟩⟩

theorem ofEdges_walks (codes : Table String (NodeId k)) (es : List (NodeId k × NodeId k)) :
    (ofEdges codes es).Walks fun u v => (u, v) ∈ es := by
  intro ids l hl y
  rw [← Except.ok.inj hl]
  exact mem_below

end View

namespace Access

/-! ## Effective permissions -/

variable (principal : Principal) (R : RoleId → RoleId → Prop)
  (P : PermissionId → PermissionId → Prop) (grants : RoleId → List PermissionId)

/-- A role is held directly or lies below a role that is. -/
def Held (r : RoleId) : Prop := ∃ s ∈ principal.roles, ReflTransGen R s r

/-- A permission is held directly or granted to a held role. -/
def Granted (q : PermissionId) : Prop :=
  q ∈ principal.permissions ∨ ∃ r, Held principal R r ∧ q ∈ grants r

/-- A permission is granted or lies below one that is. -/
def Entitled (p : PermissionId) : Prop := ∃ q, Granted principal R grants q ∧ ReflTransGen P q p

variable {principal R P grants} {roles : View .role} {permissions : View .permission}

theorem mem_keys_extend {κ : Type} [Ord κ] [Std.TransOrd κ] [Std.LawfulEqOrd κ] {s : KeySet κ}
    {l : List κ} {x : κ} : x ∈ (extend s l).keys ↔ x ∈ s.keys ∨ x ∈ l :=
  KeySet.mem_keys_foldl

/-- What is held directly and what lies below it is what can be reached from what is held. -/
theorem mem_keys_extend_walk {j : Kind} {v : View j} {E : NodeId j → NodeId j → Prop}
    (hv : v.Walks E) {s : KeySet (NodeId j)} {ids lower : List (NodeId j)}
    (hids : ∀ x, x ∈ ids ↔ x ∈ s.keys) (hlower : v.descendantIds ids = .ok lower)
    {y : NodeId j} : y ∈ (extend s lower).keys ↔ ∃ x ∈ ids, ReflTransGen E x y := by
  rw [mem_keys_extend, hv ids lower hlower, ← hids]
  constructor
  · rintro (hy | ⟨x, hx, h⟩)
    · exact ⟨y, hy, .refl⟩
    · exact ⟨x, hx, h.to_reflTransGen⟩
  · rintro ⟨x, hx, h⟩
    rcases reflTransGen_iff_eq_or_transGen.1 h with rfl | h
    · exact .inl hx
    · exact .inr ⟨x, hx, h⟩

/-- The permissions that a check takes as granted when it was answered which roles lie below those
that are held. -/
def grantedBy (principal : Principal) (grants : RoleId → List PermissionId) (lower : List RoleId) :
    KeySet PermissionId :=
  extend (KeySet.ofList principal.permissions)
    ((extend (KeySet.ofList principal.roles) lower).keys.flatMap grants)

theorem mem_keys_grantedBy (hR : roles.Walks R) {lower : List RoleId}
    (hlower : roles.descendantIds principal.roles = .ok lower) {q : PermissionId} :
    q ∈ (grantedBy principal grants lower).keys ↔ Granted principal R grants q := by
  have hheld : ∀ r, r ∈ (extend (KeySet.ofList principal.roles) lower).keys ↔
      Held principal R r := fun r =>
    mem_keys_extend_walk hR (fun x => KeySet.mem_keys_ofList.symm) hlower
  rw [grantedBy, mem_keys_extend, KeySet.mem_keys_ofList, List.mem_flatMap, Granted]
  simp only [hheld]

theorem effective_of_walk {lower : List RoleId}
    (hlower : roles.descendantIds principal.roles = .ok lower) :
    effective principal roles permissions grants =
      match permissions.descendantIds (grantedBy principal grants lower).keys with
      | .error e => .error (.hierarchy e)
      | .ok implied => .ok (extend (grantedBy principal grants lower) implied) := by
  rw [effective, hlower]
  change (ask (permissions.descendantIds (grantedBy principal grants lower).keys) >>= _) = _
  cases permissions.descendantIds (grantedBy principal grants lower).keys <;> rfl

variable (principal grants) in
/-- The effective permissions are those to which the principal is entitled. The walk over the roles
comes before the one over the permissions, which starts from the granted ones; the failure of either
is the answer. -/
theorem effective_eq (hR : roles.Walks R) (hP : permissions.Walks P) :
    match roles.descendantIds principal.roles with
    | .error e => effective principal roles permissions grants = .error (.hierarchy e)
    | .ok _ => ∃ asked : List PermissionId, (∀ q, q ∈ asked ↔ Granted principal R grants q) ∧
      match permissions.descendantIds asked with
      | .error e => effective principal roles permissions grants = .error (.hierarchy e)
      | .ok _ => ∃ held, effective principal roles permissions grants = .ok held ∧
        ∀ p, p ∈ held.keys ↔ Entitled principal R P grants p := by
  split
  case h_1 e hroles => rw [effective, hroles]; rfl
  case h_2 lower hlower =>
    refine ⟨_, fun q => mem_keys_grantedBy hR hlower, ?_⟩
    rw [effective_of_walk hlower]
    split
    case h_1 => rfl
    case h_2 implied himplied =>
      refine ⟨_, rfl, fun p => ?_⟩
      rw [mem_keys_extend_walk hP (fun _ => Iff.rfl) himplied, Entitled]
      simp only [mem_keys_grantedBy hR hlower]

theorem mem_effective (hR : roles.Walks R) (hP : permissions.Walks P) {held : KeySet PermissionId}
    (h : effective principal roles permissions grants = .ok held) {p : PermissionId} :
    p ∈ held.keys ↔ Entitled principal R P grants p := by
  have hall := effective_eq principal grants hR hP
  split at hall
  case h_1 => rw [hall] at h; cases h
  case h_2 =>
    obtain ⟨asked, -, hall⟩ := hall
    split at hall
    case h_1 => rw [hall] at h; cases h
    case h_2 =>
      obtain ⟨held', heq, hmem⟩ := hall
      obtain rfl := Except.ok.inj (heq.symm.trans h)
      exact hmem p

/-- A check for a permission whose code is known. -/
theorem explain_of_code (hR : roles.Walks R) (hP : permissions.Walks P) {required : String}
    {id : PermissionId} (hcode : permissions.idByCode required = .ok (some id)) :
    match effective principal roles permissions grants with
    | .error e =>
      explain principal roles permissions grants required = .error e ∧
        authorize principal roles permissions grants required = .error e
    | .ok held => ∃ granted reason,
      explain principal roles permissions grants required =
          .ok ⟨principal.id, required, granted, reason, held⟩ ∧
        authorize principal roles permissions grants required =
          (if granted then .ok () else .error (.forbidden required)) ∧
        (granted = true ↔ Entitled principal R P grants id) ∧
        (reason = .direct ↔ id ∈ principal.permissions) ∧
        (reason = .missing ↔ ¬ Entitled principal R P grants id) ∧
        held.keys.Pairwise fun a b => a.toInt < b.toInt := by
  split
  case h_1 e heffective =>
    simp only [authorize, explain, hcode, heffective]
    exact ⟨rfl, rfl⟩
  case h_2 held heffective =>
    have hgranted : held.contains id = true ↔ Entitled principal R P grants id :=
      KeySet.contains_iff_mem_keys.trans (mem_effective hR hP heffective)
    have hdirect : id ∈ principal.permissions → held.contains id = true :=
      fun h => hgranted.2 ⟨id, .inl h, .refl⟩
    refine ⟨held.contains id, if principal.permissions.contains id then .direct
      else if held.contains id then .implied else .missing, ?_, ?_, hgranted, ?_, ?_,
      KeySet.keys_ascending held⟩
    · simp only [explain, hcode, heffective]
      rfl
    · simp only [authorize, explain, hcode, heffective]
      rfl
    · by_cases hid : id ∈ principal.permissions
      · simp [hid]
      · cases held.contains id <;> simp [hid]
    · rw [← hgranted]
      by_cases hid : id ∈ principal.permissions
      · simp [hid, hdirect hid]
      · cases held.contains id <;> simp [hid]

variable (principal grants) in
/-- What a check answers. An unknown code, or one that cannot be looked up, is refused before any
walk. Otherwise the walks come to an end or their failure is the answer; the permission is granted
exactly if the principal is entitled to it, and the explanation says so. -/
theorem check_correct (hR : roles.Walks R) (hP : permissions.Walks P) (required : String) :
    (match roles.descendantIds principal.roles with
      | .error e => effective principal roles permissions grants = .error (.hierarchy e)
      | .ok _ => ∃ asked : List PermissionId, (∀ q, q ∈ asked ↔ Granted principal R grants q) ∧
        match permissions.descendantIds asked with
        | .error e => effective principal roles permissions grants = .error (.hierarchy e)
        | .ok _ => ∃ held, effective principal roles permissions grants = .ok held ∧
          ∀ p, p ∈ held.keys ↔ Entitled principal R P grants p) ∧
      match permissions.idByCode required with
      | .error e =>
        explain principal roles permissions grants required = .error (.hierarchy e) ∧
          authorize principal roles permissions grants required = .error (.hierarchy e)
      | .ok none =>
        explain principal roles permissions grants required = .error (.unknownPermission required) ∧
          authorize principal roles permissions grants required =
            .error (.unknownPermission required)
      | .ok (some id) =>
        match effective principal roles permissions grants with
        | .error e =>
          explain principal roles permissions grants required = .error e ∧
            authorize principal roles permissions grants required = .error e
        | .ok held => ∃ granted reason,
          explain principal roles permissions grants required =
              .ok ⟨principal.id, required, granted, reason, held⟩ ∧
            authorize principal roles permissions grants required =
              (if granted then .ok () else .error (.forbidden required)) ∧
            (granted = true ↔ Entitled principal R P grants id) ∧
            (reason = .direct ↔ id ∈ principal.permissions) ∧
            (reason = .missing ↔ ¬ Entitled principal R P grants id) ∧
            held.keys.Pairwise fun a b => a.toInt < b.toInt := by
  refine ⟨effective_eq principal grants hR hP, ?_⟩
  split
  case h_1 e hcode => simp only [authorize, explain, hcode]; exact ⟨rfl, rfl⟩
  case h_2 hcode => simp only [authorize, explain, hcode]; exact ⟨rfl, rfl⟩
  case h_3 id hcode => exact explain_of_code hR hP hcode

/-- Someone with one role, below which there is another. -/
def clerk : Principal := { id := default, roles := [⟨1⟩] }

/-- The lower role is granted a permission, below which there is the one to read. -/
def clerkGrants (r : RoleId) : List PermissionId := if r = ⟨2⟩ then [⟨10⟩] else []

/-- The permission to read comes from two walks with the grant between them. -/
theorem check_correct_clerk :
    Entitled clerk (fun u v => (u, v) ∈ [(⟨1⟩, ⟨2⟩)]) (fun u v => (u, v) ∈ [(⟨10⟩, ⟨11⟩)])
      clerkGrants ⟨11⟩ := by
  have h := (check_correct clerk clerkGrants (View.ofEdges_walks ∅ [(⟨1⟩, ⟨2⟩)])
    (View.ofEdges_walks (Table.ofList [("read", ⟨11⟩)]) [(⟨10⟩, ⟨11⟩)]) "read").2
  have hauthorized : authorize clerk (.ofEdges ∅ [(⟨1⟩, ⟨2⟩)])
      (.ofEdges (Table.ofList [("read", ⟨11⟩)]) [(⟨10⟩, ⟨11⟩)]) clerkGrants "read" = .ok () := by
    decide +kernel
  have hcode : (View.ofEdges (Table.ofList [("read", ⟨11⟩)]) [(⟨10⟩, ⟨11⟩)]).idByCode "read" =
      .ok (some (⟨11⟩ : PermissionId)) := by
    decide +kernel
  rw [hauthorized] at h
  simp only [hcode] at h
  split at h
  case h_1 => cases h.2
  case h_2 =>
    obtain ⟨granted, reason, -, hanswer, hentitled, -⟩ := h
    refine hentitled.1 ?_
    cases granted
    · cases hanswer
    · rfl

end Access

end Lineage
