import Lineage.Proofs.Connection
import Lineage.Proofs.Records

/-!
# Ids and codes in a store

Whatever is asked of a store, no id is in both of its tables. No code is there twice either, unless
an active record is overwritten by one that has the code of another record: codes are looked at when
a record is inserted, and not when it overwrites another.

* `Contents.IdsApart`, `Contents.CodesUnique`: no id is in both tables; no two records have one
  code.
* `Contents.IdsApart.perform`, `Contents.codesUnique_perform_iff`: what a call makes of that.
* `Connection.Poaches`: a step that gives a record the code of another one.
* `Connection.run_unique`: what a run makes of ids and codes.
-/

namespace Lineage

variable {k : Kind}

namespace Contents

/-- All records, active ones before archived ones. -/
def nodes (t : Contents k) : List (Node k) := t.active.values ++ t.archived.values

/-- Every record stands under its own id, and no id is in both tables. -/
structure IdsApart (t : Contents k) : Prop where
  active_own : ∀ id node, t.active.get? id = some node → node.id = id
  archived_own : ∀ id node, t.archived.get? id = some node → node.id = id
  apart : ∀ id, t.active.get? id = none ∨ t.archived.get? id = none

/-- No two records have one code. -/
def CodesUnique (t : Contents k) : Prop :=
  ∀ n ∈ t.nodes, ∀ m ∈ t.nodes, n.code = m.code → n = m

theorem CodesUnique.empty : ({} : Contents k).CodesUnique := nofun

variable {t u : Contents k} {id : NodeId k} {node n m : Node k} {code : String}

theorem ownerOf_isSome_iff : (t.ownerOf code).isSome ↔ ∃ n ∈ t.nodes, n.code = code := by
  rw [ownerOf, Option.isSome_map, List.find?_isSome, nodes]
  simp only [beq_iff_eq]

/-- A record goes in where no archived one stands, under a code that no other one has, or not at
all. -/
theorem insertNode_cases (t : Contents k) (node : Node k) : (t.insertNode node).2 = t ∨
    t.archived.get? node.id = none ∧ (∀ m ∈ t.nodes, m.code ≠ node.code) ∧
      (t.insertNode node).2 = { t with active := t.active.insert node.id node } := by
  unfold insertNode
  split
  case isTrue => exact .inl rfl
  case isFalse hid =>
    split
    case isTrue => exact .inl rfl
    case isFalse howner =>
      rw [hasId, Bool.not_eq_true, Bool.or_eq_false_iff] at hid
      refine .inr ⟨Table.not_contains_iff.1 hid.2, fun m hm hcode => ?_, rfl⟩
      exact howner (ownerOf_isSome_iff.2 ⟨m, hm, hcode⟩)

/-! ## Ids -/

namespace IdsApart

theorem empty : ({} : Contents k).IdsApart := ⟨nofun, nofun, fun _ => .inl rfl⟩

theorem mem_nodes (h : t.IdsApart) :
    n ∈ t.nodes ↔ t.active.get? n.id = some n ∨ t.archived.get? n.id = some n := by
  rw [nodes, List.mem_append, Table.mem_values, Table.mem_values]
  refine or_congr ⟨?_, fun hn => ⟨_, hn⟩⟩ ⟨?_, fun hn => ⟨_, hn⟩⟩
  · rintro ⟨id, hn⟩
    rwa [h.active_own id n hn]
  · rintro ⟨id, hn⟩
    rwa [h.archived_own id n hn]

theorem not_archived (h : t.IdsApart) (hn : t.active.get? id = some n) :
    t.archived.get? id = none :=
  (h.apart id).resolve_left (by rw [hn]; exact Option.some_ne_none _)

theorem of_records (h : t.IdsApart) (hactive : u.active = t.active)
    (harchived : u.archived = t.archived) : u.IdsApart where
  active_own := hactive ▸ h.active_own
  archived_own := harchived ▸ h.archived_own
  apart := hactive ▸ harchived ▸ h.apart

/-- A record may be written where no archived one stands. -/
theorem write (h : t.IdsApart) (hfree : t.archived.get? node.id = none) :
    ({ t with active := t.active.insert node.id node } : Contents k).IdsApart where
  active_own x n hn := by
    rw [Table.get?_insert] at hn
    split at hn
    case isTrue hx => rw [← Option.some.inj hn, hx]
    case isFalse => exact h.active_own x n hn
  archived_own := h.archived_own
  apart x := by
    rw [Table.get?_insert]
    split
    case isTrue hx => exact .inr (hx ▸ hfree)
    case isFalse => exact h.apart x

theorem insertNode (h : t.IdsApart) (node : Node k) : (t.insertNode node).2.IdsApart := by
  rcases t.insertNode_cases node with hsame | ⟨hfree, -, hwritten⟩
  · rwa [hsame]
  · rw [hwritten]
    exact h.write hfree

theorem updateNode (h : t.IdsApart) (node : Node k) : (t.updateNode node).2.IdsApart := by
  unfold Contents.updateNode
  split
  case isTrue hid =>
    obtain ⟨old, hold⟩ := Table.contains_iff.1 hid
    exact h.write (h.not_archived hold)
  case isFalse => exact h

theorem deleteNode (h : t.IdsApart) (id : NodeId k) :
    ({ t with active := t.active.erase id } : Contents k).IdsApart where
  active_own x n hn := h.active_own x n (Table.get?_of_erase hn)
  archived_own := h.archived_own
  apart x := by
    rw [Table.get?_erase]
    split
    case isTrue => exact .inl rfl
    case isFalse => exact h.apart x

theorem deleteArchivedNode (h : t.IdsApart) (id : NodeId k) :
    ({ t with archived := t.archived.erase id } : Contents k).IdsApart where
  active_own := h.active_own
  archived_own x n hn := h.archived_own x n (Table.get?_of_erase hn)
  apart x := by
    rw [Table.get?_erase]
    split
    case isTrue => exact .inr rfl
    case isFalse => exact h.apart x

theorem archiveNode (h : t.IdsApart) (id : NodeId k) : (t.archiveNode id).2.IdsApart := by
  unfold Contents.archiveNode
  cases hn : t.active.get? id with
  | none => exact h
  | some node =>
    refine ⟨(h.deleteNode id).active_own, fun x m hm => ?_, fun x => ?_⟩
    · rw [Table.get?_insert] at hm
      split at hm
      case isTrue hx => rw [← Option.some.inj hm, hx, h.active_own id node hn]
      case isFalse => exact h.archived_own x m hm
    · rw [Table.get?_erase, Table.get?_insert]
      split
      case isTrue => exact .inl rfl
      case isFalse => exact h.apart x

theorem restoreNode (h : t.IdsApart) (id : NodeId k) : (t.restoreNode id).2.IdsApart := by
  unfold Contents.restoreNode
  cases hn : t.archived.get? id with
  | none => exact h
  | some node =>
    -- The record stands under its own id, so that it comes back by a write.
    have hid := h.archived_own id node hn
    subst hid
    exact (h.deleteArchivedNode node.id).write (Table.get?_erase_self t.archived node.id)

/-- Whatever is called, no id comes to be in both tables. -/
theorem perform {α : Type} (h : t.IdsApart) (c : Call k α) : (t.perform c).2.IdsApart := by
  cases c with
  | insertNode node => exact h.insertNode node
  | updateNode node => exact h.updateNode node
  | deleteNode id => exact h.deleteNode id
  | archiveNode id => exact h.archiveNode id
  | restoreNode id => exact h.restoreNode id
  | deleteArchivedNode id => exact h.deleteArchivedNode id
  | _ => exact h.of_records (t.perform_records _ rfl).1 (t.perform_records _ rfl).2

end IdsApart

/-! ## Codes -/

theorem CodesUnique.of_nodes (h : t.CodesUnique) (hsub : ∀ n ∈ u.nodes, n ∈ t.nodes) :
    u.CodesUnique :=
  fun n hn m hm => h n (hsub n hn) m (hsub m hm)

theorem mem_nodes_write (h : t.IdsApart) (hfree : t.archived.get? node.id = none) :
    n ∈ ({ t with active := t.active.insert node.id node } : Contents k).nodes ↔
      n = node ∨ n ∈ t.nodes ∧ n.id ≠ node.id := by
  rw [(h.write hfree).mem_nodes, h.mem_nodes, Table.get?_insert]
  split
  case isTrue hid =>
    rw [hid, hfree]
    simp [eq_comm]
  case isFalse hid =>
    have hne : n ≠ node := fun he => hid (he ▸ rfl)
    simp [hid, hne]

/-- A record that is written leaves codes unique iff no record of another id has its code. -/
theorem codesUnique_write_iff (h : t.IdsApart) (hcodes : t.CodesUnique)
    (hfree : t.archived.get? node.id = none) :
    ({ t with active := t.active.insert node.id node } : Contents k).CodesUnique ↔
      ∀ m ∈ t.nodes, m.id ≠ node.id → m.code ≠ node.code := by
  have hmem : ∀ {n}, n ∈ nodes { t with active := t.active.insert node.id node } ↔
      n = node ∨ n ∈ t.nodes ∧ n.id ≠ node.id := mem_nodes_write h hfree
  constructor
  · intro hwritten m hm hid hcode
    have he := hwritten m (hmem.2 (.inr ⟨hm, hid⟩)) node (hmem.2 (.inl rfl)) hcode
    exact hid (congrArg (·.id) he)
  · intro hother n hn m hm hcode
    rcases hmem.1 hn with rfl | ⟨hold, hid⟩ <;> rcases hmem.1 hm with rfl | ⟨hold', hid'⟩
    · rfl
    · exact absurd hcode.symm (hother m hold' hid')
    · exact absurd hcode (hother n hold hid)
    · exact hcodes n hold m hold' hcode

theorem CodesUnique.insertNode (hcodes : t.CodesUnique) (h : t.IdsApart) (node : Node k) :
    (t.insertNode node).2.CodesUnique := by
  rcases t.insertNode_cases node with hsame | ⟨hfree, hcode, hwritten⟩
  · rwa [hsame]
  · rw [hwritten]
    exact (codesUnique_write_iff h hcodes hfree).2 fun m hm _ => hcode m hm

theorem mem_nodes_archiveNode (hn : n ∈ (t.archiveNode id).2.nodes) : n ∈ t.nodes := by
  unfold archiveNode at hn
  cases hnode : t.active.get? id with
  | none => rwa [hnode] at hn
  | some node =>
    rw [hnode] at hn
    rcases List.mem_append.1 hn with hn | hn
    · exact List.mem_append_left _ (Table.mem_values_of_erase hn)
    · rcases Table.mem_values_of_insert hn with rfl | hn
      · exact List.mem_append_left _ (Table.mem_values.2 ⟨id, hnode⟩)
      · exact List.mem_append_right _ hn

theorem mem_nodes_restoreNode (hn : n ∈ (t.restoreNode id).2.nodes) : n ∈ t.nodes := by
  unfold restoreNode at hn
  cases hnode : t.archived.get? id with
  | none => rwa [hnode] at hn
  | some node =>
    rw [hnode] at hn
    rcases List.mem_append.1 hn with hn | hn
    · rcases Table.mem_values_of_insert hn with rfl | hn
      · exact List.mem_append_right _ (Table.mem_values.2 ⟨id, hnode⟩)
      · exact List.mem_append_left _ hn
    · exact List.mem_append_right _ (Table.mem_values_of_erase hn)

end Contents

/-- A call that overwrites an active record by one with the code of another record. -/
def Call.Poaches {α : Type} (t : Contents k) : Call k α → Prop
  | updateNode node => t.active.contains node.id = true ∧
      ∃ other ∈ t.nodes, other.id ≠ node.id ∧ other.code = node.code
  | _ => False

namespace Contents

variable {t : Contents k}

theorem codesUnique_updateNode_iff (h : t.IdsApart) (hcodes : t.CodesUnique) (node : Node k) :
    (t.updateNode node).2.CodesUnique ↔ ¬ (Call.updateNode node).Poaches t := by
  unfold updateNode Call.Poaches
  split
  case isTrue hid =>
    obtain ⟨old, hold⟩ := Table.contains_iff.1 hid
    rw [codesUnique_write_iff h hcodes (h.not_archived hold)]
    simp [hid]
  case isFalse hid => exact iff_of_true hcodes fun hpoaches => hid hpoaches.1

/-- A call leaves codes unique unless it gives a record the code of another one. -/
theorem codesUnique_perform_iff {α : Type} (h : t.IdsApart) (hcodes : t.CodesUnique)
    (c : Call k α) : (t.perform c).2.CodesUnique ↔ ¬ c.Poaches t := by
  cases c with
  | updateNode node => exact codesUnique_updateNode_iff h hcodes node
  | insertNode node => exact iff_of_true (hcodes.insertNode h node) not_false
  | archiveNode id =>
    exact iff_of_true (hcodes.of_nodes fun _ => mem_nodes_archiveNode) not_false
  | restoreNode id =>
    exact iff_of_true (hcodes.of_nodes fun _ => mem_nodes_restoreNode) not_false
  | deleteNode id =>
    refine iff_of_true (hcodes.of_nodes fun n hn => ?_) not_false
    exact List.mem_append.2 ((List.mem_append.1 hn).imp_left Table.mem_values_of_erase)
  | deleteArchivedNode id =>
    refine iff_of_true (hcodes.of_nodes fun n hn => ?_) not_false
    exact List.mem_append.2 ((List.mem_append.1 hn).imp_right Table.mem_values_of_erase)
  | insertPaths rows =>
    have hkept := t.perform_records (.insertPaths rows) rfl
    refine iff_of_true (hcodes.of_nodes fun n hn => ?_) not_false
    rwa [nodes, hkept.1, hkept.2] at hn
  | _ => exact iff_of_true hcodes not_false

end Contents

/-! ## Runs -/

/-- A transaction begins with what is committed. -/
theorem MemoryStore.eq_contents_of_begin {s : MemoryStore k} {t : Contents k}
    (h : s.begin = .ok t) : t = s.contents := by
  unfold begin committed at h
  split at h
  · cases h
  · split at h
    · cases h
    · exact (Except.ok.inj h).symm

namespace Connection

/-- What is committed is so, and what the open transaction holds. -/
def All (P : Contents k → Prop) (x : Connection k) : Prop :=
  P x.store.contents ∧ ∀ t, x.tx = some t → P t

/-- A step that overwrites an active record by one with the code of another record. -/
def Poaches (x : Connection k) : Step k → Prop
  | .call c => ∃ t, x.tx = some t ∧ x.store.failureOf? c.name = none ∧ c.Poaches t
  | _ => False

variable {P : Contents k → Prop} {x : Connection k} {step : Step k}

/-- A step keeps what a call in it keeps. -/
theorem All.next (h : x.All P) (hcall : ∀ {α : Type} (c : Call k α) t, step = .call c →
      x.tx = some t → P (x.store.answer c t).2) : (x.next step).All P := by
  obtain ⟨hstore, htx⟩ := h
  cases step with
  | begin =>
    simp only [Connection.next]
    split
    case h_1 t _ hbegin =>
      refine ⟨hstore, fun u hu => ?_⟩
      rwa [← Option.some.inj hu, MemoryStore.eq_contents_of_begin hbegin]
    case h_2 => exact ⟨hstore, htx⟩
  | call c =>
    refine ⟨hstore, fun u hu => ?_⟩
    obtain ⟨t, ht, rfl⟩ := Option.map_eq_some_iff.1 hu
    exact hcall c t rfl ht
  | commit =>
    simp only [Connection.next]
    split
    case h_1 => exact ⟨hstore, htx⟩
    case h_2 t ht =>
      refine ⟨?_, fun u hu => by cases hu⟩
      unfold MemoryStore.commit
      split
      · exact hstore
      · exact htx t ht
  | drop => exact ⟨hstore, fun u hu => by cases hu⟩

theorem All.next_idsApart (h : x.All Contents.IdsApart) (step : Step k) :
    (x.next step).All Contents.IdsApart :=
  h.next fun c t _ ht => by
    unfold MemoryStore.answer
    split
    · exact h.2 t ht
    · exact (h.2 t ht).perform c

theorem next_codesUnique_iff (hids : x.All Contents.IdsApart) (hcodes : x.All Contents.CodesUnique)
    (step : Step k) : (x.next step).All Contents.CodesUnique ↔ ¬ x.Poaches step := by
  constructor
  · intro hnext hpoaches
    cases step with
    | call c =>
      obtain ⟨t, ht, hanswered, hpoaches⟩ := hpoaches
      have hafter := hnext.2 (x.store.answer c t).2 (Option.map_eq_some_iff.2 ⟨t, ht, rfl⟩)
      rw [MemoryStore.answer, hanswered] at hafter
      exact (Contents.codesUnique_perform_iff (hids.2 t ht) (hcodes.2 t ht) c).1 hafter hpoaches
    | _ => exact hpoaches
  · intro hkept
    refine hcodes.next fun c t hstep ht => ?_
    subst hstep
    unfold MemoryStore.answer
    split
    case h_1 => exact hcodes.2 t ht
    case h_2 hanswered =>
      refine (Contents.codesUnique_perform_iff (hids.2 t ht) (hcodes.2 t ht) c).2 fun hpoaches => ?_
      exact hkept ⟨t, ht, hanswered, hpoaches⟩

theorem run_idsApart (h : x.All Contents.IdsApart) (steps : List (Step k)) :
    (x.run steps).All Contents.IdsApart := by
  induction steps generalizing x with
  | nil => exact h
  | cons step rest ih => exact ih (h.next_idsApart step)

theorem run_concat (x : Connection k) (steps : List (Step k)) (step : Step k) :
    x.run (steps ++ [step]) = (x.run steps).next step := List.foldl_concat ..

/-- No id is ever in both tables, and every record stands under its own id. No two records ever have
one code iff no active record is ever overwritten by one with the code of another record. -/
theorem run_unique (locked : Bool) (refusal : Option Refusal) (steps : List (Step k)) :
    let x : Connection k := { store := { locked, refusal } }
    (x.run steps).All Contents.IdsApart ∧
      ((∀ before, before <+: steps → (x.run before).All Contents.CodesUnique) ↔
        ∀ before step, before ++ [step] <+: steps → ¬ (x.run before).Poaches step) := by
  intro x
  have hids : ∀ steps, (x.run steps).All Contents.IdsApart :=
    run_idsApart ⟨.empty, nofun⟩
  refine ⟨hids steps, fun hunique before step hsteps => ?_, fun hkept before hsteps => ?_⟩
  · have hbefore := hunique before ((List.prefix_append before [step]).trans hsteps)
    have hafter := hunique _ hsteps
    rw [run_concat] at hafter
    exact (next_codesUnique_iff (hids before) hbefore step).1 hafter
  · -- The steps so far, by the last one.
    induction before using List.reverseRecOn with
    | nil => exact ⟨.empty, nofun⟩
    | append_singleton before step ih =>
      have hbefore := ih ((List.prefix_append before [step]).trans hsteps)
      rw [run_concat]
      exact (next_codesUnique_iff (hids before) hbefore step).2 (hkept before step hsteps)

/-- Two records of one code, by the overwriting of the second one. They are committed. -/
theorem code_poached :
    let x : Connection ⟨"tag"⟩ := run {} [.begin,
      .call (.insertNode ⟨⟨1⟩, "a", "A", "", ∅⟩), .call (.insertNode ⟨⟨2⟩, "b", "B", "", ∅⟩),
      .call (.updateNode ⟨⟨2⟩, "a", "B", "", ∅⟩), .commit]
    (x.store.contents.nodes.map fun node => (node.id.raw, node.code)) = [(1, "a"), (2, "a")] ∧
      ¬ x.store.contents.CodesUnique := by
  refine ⟨rfl, fun hunique => ?_⟩
  have he := hunique _ (.head _) _ (.tail _ (.head _)) rfl
  exact absurd (congrArg (·.id) he) (by decide)

end Connection

end Lineage
