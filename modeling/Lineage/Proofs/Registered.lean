import Lineage.Proofs.Records

/-!
# Records that are in order

Ids and codes are unique among all records, active and archived, and no record has a flaw. Every
operation keeps this, whatever the closure rows are.

* `Contents.Registered`: the records are in order.
* `Contents.Registered.find?_code`: the code of an active node leads to that node.
* `Contents.Registered.leads`: the writes of every operation keep them so.
-/

namespace Lineage

variable {k : Kind}

namespace Contents

/-- The records are well-formed, whatever the edges, and none has a flaw. -/
structure Registered (s : Contents k) : Prop where
  wellFormed : s.records.WellFormed
  flawless : ∀ id node, s.records.node? id = some node → node.flaw? = none

namespace Registered

variable {s t : Contents k} {id : NodeId k} {node : Node k}

theorem empty : ({} : Contents k).Registered where
  wellFormed := .empty
  flawless _ _ h := by cases h

theorem of_records (h : s.Registered) (hactive : t.active = s.active)
    (harchived : t.archived = s.archived) : t.Registered := by
  have hrecords : t.records = s.records := by rw [records, records, hactive, harchived]
  exact ⟨hrecords ▸ h.wellFormed, hrecords ▸ h.flawless⟩

theorem frame : Frame fun s t : Contents k => s.Registered → t.Registered where
  of_records hactive harchived h := h.of_records hactive harchived
  trans hst htu h := htu (hst h)

/-- The code of an active node leads to that node. -/
theorem find?_code (h : s.Registered) (hnode : s.active.get? id = some node) :
    (s.active.values.find? fun n => n.code == node.code) = some node := by
  have hsome : (s.active.values.find? fun n => n.code == node.code).isSome :=
    List.find?_isSome.2 ⟨node, Table.mem_values.2 ⟨id, hnode⟩, beq_self_eq_true _⟩
  obtain ⟨owner, howner⟩ := Option.isSome_iff_exists.1 hsome
  obtain ⟨x, hx⟩ := Table.mem_values.1 (List.mem_of_find?_eq_some howner)
  have hcode : owner.code = node.code := by simpa using List.find?_some howner
  obtain rfl : x = id := h.wellFormed.code_unique x id node.code
    ⟨owner, Dag.node?_of_active hx, hcode⟩ ⟨node, Dag.node?_of_active hnode, rfl⟩
  rw [howner, ← hx, hnode]

/-- An active node has a code that is not blank. -/
theorem not_blank (h : s.Registered) (hnode : s.active.get? id = some node) :
    Text.isBlankText node.code = false := by
  have hflaw := h.flawless id node (Dag.node?_of_active hnode)
  unfold Node.flaw? Flaw.find? at hflaw
  cases hblank : Text.isBlankText node.code with
  | false => rfl
  | true =>
    rw [hblank] at hflaw
    cases hflaw

/-! ## Writes -/

/-- Some records may be gone. -/
theorem of_sub (h : s.Registered)
    (hactive : ∀ id node, t.active.get? id = some node → s.active.get? id = some node)
    (harchived : ∀ id node, t.archived.get? id = some node → s.archived.get? id = some node) :
    t.Registered := by
  have hnode : ∀ id node, t.records.node? id = some node → s.records.node? id = some node := by
    intro id node hn
    rcases Option.or_eq_some_iff.1 hn with hn | ⟨-, hn⟩
    · exact Dag.node?_of_active (hactive id node hn)
    · exact h.wellFormed.node?_of_archived (harchived id node hn)
  have hcode : ∀ id code, t.records.HasCode id code → s.records.HasCode id code :=
    fun id code ⟨n, hn, hc⟩ => ⟨n, hnode id n hn, hc⟩
  refine ⟨⟨fun id n hn => h.wellFormed.own id n (hnode id n hn), fun id => ?_, ?_, ?_, ?_⟩,
    fun id n hn => h.flawless id n (hnode id n hn)⟩
  · cases hn : t.active.get? id with
    | none => exact .inl hn
    | some node =>
      have hnone := h.wellFormed.not_archived (hactive id node hn)
      refine .inr (Option.eq_none_iff_forall_ne_some.2 fun n hn' => ?_)
      exact absurd (hnone.symm.trans (harchived id n hn')) (Option.some_ne_none n).symm
  · exact fun x y c hx hy => h.wellFormed.code_unique x y c (hcode x c hx) (hcode y c hy)
  · exact fun _ _ e => e.elim
  · exact h.wellFormed.acyclic

/-- A node without a flaw may be written where no archived one stands, under a code that no other
record has. -/
theorem write (h : s.Registered) (hflaw : node.flaw? = none)
    (hfree : s.archived.get? node.id = none)
    (hcode : ∀ x, x ≠ node.id → ¬ s.records.HasCode x node.code) :
    ({ s with active := s.active.insert node.id node } : Contents k).Registered where
  wellFormed := h.wellFormed.write hfree hcode
  flawless x n hn := by
    have hn := (Dag.node?_write s.records node x).symm.trans hn
    split at hn
    case isTrue => rwa [← Option.some.inj hn]
    case isFalse => exact h.flawless x n hn

theorem insertNode (h : s.Registered) (hflaw : node.flaw? = none) :
    (s.insertNode node).2.Registered := by
  unfold Contents.insertNode
  split
  case isTrue => exact h
  case isFalse hid =>
    split
    case isTrue => exact h
    case isFalse howner =>
      have hnew : ¬ s.records.Knows node.id := mt hasId_iff.2 hid
      have hcode := (ownerOf_eq_none h.wellFormed).1 (Option.not_isSome_iff_eq_none.1 howner)
      exact h.write hflaw (Dag.not_knows_iff.1 hnew).2 fun x _ => hcode x

theorem archiveNode (h : s.Registered) (id : NodeId k) : (s.archiveNode id).2.Registered := by
  unfold Contents.archiveNode
  cases hn : s.active.get? id with
  | none => exact h
  | some node =>
    refine ⟨h.wellFormed.archive hn, fun x n hx => h.flawless x n ?_⟩
    exact (Dag.node?_archive (g := s.records) hn x).symm.trans hx

theorem restoreNode (h : s.Registered) (id : NodeId k) : (s.restoreNode id).2.Registered := by
  unfold Contents.restoreNode
  cases hn : s.archived.get? id with
  | none => exact h
  | some node =>
    refine ⟨h.wellFormed.recover hn, fun x n hx => h.flawless x n ?_⟩
    exact (Dag.node?_recover h.wellFormed hn x).symm.trans hx

theorem deleteNode (h : s.Registered) (id : NodeId k) :
    ({ s with active := s.active.erase id } : Contents k).Registered :=
  h.of_sub (fun _ _ hn => Table.get?_of_erase hn) fun _ _ hn => hn

theorem deleteArchivedNode (h : s.Registered) (id : NodeId k) :
    ({ s with archived := s.archived.erase id } : Contents k).Registered :=
  h.of_sub (fun _ _ hn => hn) fun _ _ hn => Table.get?_of_erase hn

end Registered

end Contents

/-! ## Operations -/

/-- An update that is not refused overwrites an active node under a code that no other record has:
its own, or one that was looked up. -/
theorem Work.update_eq_ok {s : MemoryStore k} {t t' : Contents k} {node : Node k} {a : Unit}
    (h : update node s t = .ok (a, t')) : ∃ current, t.active.get? node.id = some current ∧
      t' = { t with active := t.active.insert node.id node } ∧
      (current.code = node.code ∨
        ∀ owner, t.ownerOf node.code = some owner → owner = node.id) := by
  have hwritten : ∀ {current}, t.active.get? node.id = some current →
      (do unless ← ask (.updateNode node) do refuse (.notFound (.node node.id)) :
        Work k Unit) s t = .ok (a, t') →
      t' = { t with active := t.active.insert node.id node } := by
    intro current hcurrent h
    obtain ⟨found, t₁, hwrite, h⟩ := bind_eq_ok h
    have hfound : t.active.contains node.id = true := Table.contains_iff.2 ⟨current, hcurrent⟩
    have hwrite := ask_eq_ok hwrite
    simp only [Contents.perform, Contents.updateNode, if_pos hfound] at hwrite
    cases hwrite
    exact (Prod.mk.inj (Except.ok.inj h)).2.symm
  obtain ⟨current?, t₁, hfind, h⟩ := bind_eq_ok h
  cases ask_eq_ok hfind
  cases hcurrent : t.active.get? node.id with
  | none =>
    rw [hcurrent] at h
    cases h
  | some current =>
    refine ⟨current, rfl, ?_⟩
    rw [hcurrent] at h
    dsimp only at h
    by_cases hsame : current.code = node.code
    · rw [if_neg (by simp [hsame])] at h
      exact ⟨hwritten hcurrent h, .inl hsame⟩
    rw [if_pos (by simp [hsame])] at h
    obtain ⟨owner?, t₂, hlookup, h⟩ := bind_eq_ok h
    cases ask_eq_ok hlookup
    cases howner : t.ownerOf node.code with
    | none =>
      rw [howner] at h
      exact ⟨hwritten hcurrent h, .inr fun owner he => by cases he⟩
    | some owner =>
      rw [howner] at h
      dsimp only at h
      by_cases hown : owner = node.id
      · rw [if_neg (by simp [hown])] at h
        exact ⟨hwritten hcurrent h, .inr fun x he => Option.some.inj he ▸ hown⟩
      · rw [if_pos (by simp [hown])] at h
        cases h

namespace Contents.Registered

/-- The writes of every operation keep records in order. -/
theorem leads (env : Surroundings k) (op : Operation k) :
    op.Leads (fun s t => s.Registered → t.Registered) env := by
  have hR := frame (k := k)
  have hpurge : ∀ (id : NodeId k) (t : Contents k), t.Registered →
      (t.perform (.deleteArchivedNode id)).2.Registered := fun id t h => h.deleteArchivedNode id
  cases op with
  | add new => exact fun hflaw id => Work.add_leads hR fun t h => h.insertNode hflaw
  | update node =>
    intro hflaw s t a t' hw h
    obtain ⟨current, hcurrent, rfl, hcode⟩ := Work.update_eq_ok hw
    have hhas : t.records.HasCode node.id current.code :=
      ⟨current, Dag.node?_of_active hcurrent, rfl⟩
    refine h.write hflaw (h.wellFormed.not_archived hcurrent) fun x hx hxcode => hx ?_
    rcases hcode with hsame | howner
    · exact h.wellFormed.code_unique x node.id _ hxcode (hsame ▸ hhas)
    · exact howner x ((ownerOf_eq_some h.wellFormed).2 hxcode)
  | link a d => trivial
  | unlink a d => trivial
  | archive id => exact fun _ => Work.archive_leads hR fun t h => h.archiveNode id
  | recover id => exact Work.recover_leads hR fun t h => h.restoreNode id
  | purge id => exact fun _ => Work.purge_leads hR (hpurge id)
  | delete id => exact fun _ => Work.delete_leads hR (fun t h => h.deleteNode id) (hpurge id)
  | deleteByCode code =>
    exact fun id _ => Work.delete_leads hR (fun t h => h.deleteNode id) (hpurge id)

end Contents.Registered

end Lineage
