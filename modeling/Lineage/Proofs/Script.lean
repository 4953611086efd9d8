import Lineage.Proofs.Work

/-!
# Work, call by call

Work is a function, which does not show the calls that it makes. A `Script` is the same work written
out: the calls one after the other, each with what is done next. So something can be said of every
call with the contents that it meets.

* `Script.work`: the work that a script stands for.
* `Change`: the work that changes a hierarchy, with its script (`Change.work_script`).
* `Script.Each`: every call of a script meets contents that it is right for.
* `Call.Sound`: the store does not reject the call, and rows that the call addresses are there.
* `Change.sound`: every call of every change is sound, if the contents hold a graph.
-/

namespace Lineage

variable {k : Kind}

/-- Calls to the transaction of a store, one after the other, with an answer or a reason to give
up. -/
inductive Script (k : Kind) (α : Type) : Type 1
  | done (a : α)
  | refuse (e : HierarchyError k)
  | call {β : Type} (c : Call k β) (failed : StoreError → HierarchyError k)
      (next : β → Script k α)

namespace Script

variable {α β : Type}

/-- Do something after a script. -/
def bind : Script k α → (α → Script k β) → Script k β
  | done a, f => f a
  | refuse e, _ => refuse e
  | call c failed next, f => call c failed fun b => (next b).bind f

instance : Monad (Script k) where
  pure := done
  bind := bind

/-- A single call. -/
def ask (c : Call k α) (failed : StoreError → HierarchyError k := .store) : Script k α :=
  call c failed done

/-- The work that a script stands for. -/
def work : Script k α → Work k α
  | done a => pure a
  | refuse e => Work.refuse e
  | call c failed next => Work.ask c failed >>= fun b => (next b).work

/-! ## The changes, written out -/

def add (node : Node k) : Script k Unit := do
  if ← ask (.idExists node.id) then refuse (.conflict (.id node.id))
  if (← ask (.codeOwner node.code)).isSome then refuse (.conflict (.code node.code))
  ask (.insertNode node) .ofNodeWrite
  ask (.insertPaths [Path.self node.id])

def update (node : Node k) : Script k Unit := do
  let some current ← ask (.findNode node.id) | refuse (.notFound (.node node.id))
  if current.code != node.code then
    if let some owner ← ask (.codeOwner node.code) then
      if owner != node.id then refuse (.conflict (.code node.code))
  unless ← ask (.updateNode node) do refuse (.notFound (.node node.id))

def requireNode (id : NodeId k) : Script k Unit := do
  if (← ask (.findNode id)).isNone then refuse (.notFound (.node id))

def hasEdge (ancestor descendant : NodeId k) : Script k Bool := do
  return (← ask (.findPath ancestor descendant)).any Path.isDirect

def link (ancestor descendant : NodeId k) : Script k Unit := do
  requireNode descendant
  requireNode ancestor
  let upper ← ask (.ancestorsOf ancestor)
  if upper.any fun p => p.ancestor == descendant then refuse (.cycle ancestor descendant)
  if ← hasEdge ancestor descendant then refuse (.duplicatePath ancestor descendant)
  let lower ← ask (.descendantsOf descendant)
  let existing ← ask (.pathsBetween (upper.map (·.ancestor)) (lower.map (·.descendant)))
  let plan := Closure.planLink (Closure.linkCandidates upper lower) existing
  ask (.insertPaths plan.insert)
  ask (.updateDepths plan.shorten)

def prune : Script k Unit := do
  let fix := Closure.reconcile (← ask .allPaths)
  if fix.isEmpty then return ()
  let _ ← ask (.deletePaths fix.stale)
  ask (.insertPaths fix.missing)
  ask (.updateDepths fix.redepth)

def unlink (leafOnly : Bool) (ancestor descendant : NodeId k) : Script k Unit := do
  if leafOnly then
    if (← ask (.descendantsOf descendant)).any fun p => !p.isSelf then
      refuse (.descendantHasDescendant descendant)
  unless ← hasEdge ancestor descendant do refuse (.notFound (.path ancestor descendant))
  let _ ← ask (.deletePaths [Path.direct ancestor descendant])
  prune

def archive (id : NodeId k) : Script k Unit := do
  unless ← ask (.archiveNode id) do refuse (.notFound (.node id))

def recover (id : NodeId k) : Script k Unit := do
  unless ← ask (.restoreNode id) do refuse (.notFound (.archived id))

def withAncestors (id : NodeId k) : Script k (List (NodeId k)) := do
  let ids := (← ask (.ancestorsOf id)).map (·.ancestor)
  return if ids.contains id then ids else ids ++ [id]

def detach (id : NodeId k) : Script k (List (NodeId k)) := do
  let touched ← withAncestors id
  let _ ← ask (.deletePathsOf id)
  prune
  return touched

def purge (id : NodeId k) : Script k (Option (List (NodeId k))) := do
  if (← ask (.findArchivedNode id)).isNone then return none
  let _ ← ask (.deleteArchivedNode id)
  return some (← detach id)

def delete (id : NodeId k) : Script k (List (NodeId k)) := do
  unless ← ask (.deleteNode id) do refuse (.notFound (.node id))
  let _ ← ask (.deleteArchivedNode id)
  detach id

/-! ## A script does the same work -/

theorem work_bind (w : Script k α) (f : α → Script k β) :
    (w >>= f).work = w.work >>= fun a => (f a).work := by
  change (w.bind f).work = _
  induction w with
  | done a => rfl
  | refuse e => rfl
  | call c failed next ih =>
    funext s t
    simp only [bind, work, ih]
    simp only [Work.bind_apply]
    rcases Work.ask c failed s t with _ | ⟨b, t'⟩ <;> rfl

theorem work_pure (a : α) : (pure a : Script k α).work = pure a := rfl

theorem work_refuse (e : HierarchyError k) : (refuse e : Script k α).work = Work.refuse e := rfl

theorem work_ask (c : Call k α) (failed : StoreError → HierarchyError k) :
    (ask c failed).work = Work.ask c failed := by
  funext s t
  change ((Work.ask c failed s t).bind fun r => .ok r) = _
  rcases Work.ask c failed s t with _ | ⟨b, t'⟩ <;> rfl

end Script

/-! ## Changes -/

/-- Work that changes what a store holds. -/
inductive Change (k : Kind)
  | add (node : Node k)
  | update (node : Node k)
  | link (ancestor descendant : NodeId k)
  | unlink (leafOnly : Bool) (ancestor descendant : NodeId k)
  | archive (id : NodeId k)
  | recover (id : NodeId k)
  | purge (id : NodeId k)
  | delete (id : NodeId k)

namespace Change

/-- What a change answers: for a removal, the nodes that it touched. -/
def Answer : Change k → Type
  | purge _ => Option (List (NodeId k))
  | delete _ => List (NodeId k)
  | _ => Unit

/-- The work of a change. -/
def work : (c : Change k) → Work k c.Answer
  | add node => Work.add node
  | update node => Work.update node
  | link a d => Work.link a d
  | unlink leafOnly a d => Work.unlink leafOnly a d
  | archive id => Work.archive id
  | recover id => Work.recover id
  | purge id => Work.purge id
  | delete id => Work.delete id

/-- The calls of a change. -/
def script : (c : Change k) → Script k c.Answer
  | add node => Script.add node
  | update node => Script.update node
  | link a d => Script.link a d
  | unlink leafOnly a d => Script.unlink leafOnly a d
  | archive id => Script.archive id
  | recover id => Script.recover id
  | purge id => Script.purge id
  | delete id => Script.delete id

end Change

namespace Script

theorem work_add (node : Node k) : (add node).work = Work.add node := by
  unfold add Work.add
  simp only [work_bind, work_ask, apply_ite work, work_refuse]

theorem work_update (node : Node k) : (update node).work = Work.update node := by
  unfold update Work.update
  simp only [work_bind, work_ask]
  refine congrArg _ (funext fun current => ?_)
  cases current with
  | none => rfl
  | some current =>
    simp only [apply_ite work, work_bind, work_ask, work_refuse, work_pure]
    split
    · refine congrArg _ (funext fun owner => ?_)
      cases owner <;> simp only [apply_ite work, work_bind, work_ask, work_refuse, work_pure]
    · rfl

theorem work_requireNode (id : NodeId k) : (requireNode id).work = Work.requireNode id := by
  unfold requireNode Work.requireNode
  simp only [work_bind, work_ask, apply_ite work, work_refuse, work_pure]

theorem work_hasEdge (a d : NodeId k) : (hasEdge a d).work = Work.hasEdge a d := by
  unfold hasEdge Work.hasEdge
  simp only [work_bind, work_ask, work_pure]

theorem work_link (a d : NodeId k) : (link a d).work = Work.link a d := by
  unfold link Work.link
  simp only [work_bind, work_ask, work_requireNode, work_hasEdge, apply_ite work, work_refuse]

theorem work_prune : (prune : Script k Unit).work = Work.prune := by
  unfold prune Work.prune
  simp only [work_bind, work_ask, apply_ite work, work_pure]

theorem work_unlink (leafOnly : Bool) (a d : NodeId k) :
    (unlink leafOnly a d).work = Work.unlink leafOnly a d := by
  unfold unlink Work.unlink
  simp only [work_bind, work_ask, work_hasEdge, work_prune, apply_ite work, work_refuse]

theorem work_archive (id : NodeId k) : (archive id).work = Work.archive id := by
  unfold archive Work.archive
  simp only [work_bind, work_ask, apply_ite work, work_refuse, work_pure]

theorem work_recover (id : NodeId k) : (recover id).work = Work.recover id := by
  unfold recover Work.recover
  simp only [work_bind, work_ask, apply_ite work, work_refuse, work_pure]

theorem work_detach (id : NodeId k) : (detach id).work = Work.detach id := by
  unfold detach Work.detach withAncestors Work.withAncestors
  simp only [work_bind, work_ask, work_prune, work_pure]

theorem work_purge (id : NodeId k) : (purge id).work = Work.purge id := by
  unfold purge Work.purge
  simp only [work_bind, work_ask, work_detach, apply_ite work, work_pure]

theorem work_delete (id : NodeId k) : (delete id).work = Work.delete id := by
  unfold delete Work.delete
  simp only [work_bind, work_ask, work_detach, apply_ite work, work_refuse]

end Script

/-- The calls of a change do its work. -/
theorem Change.work_script (c : Change k) : c.script.work = c.work := by
  cases c with
  | add node => exact Script.work_add node
  | update node => exact Script.work_update node
  | link a d => exact Script.work_link a d
  | unlink leafOnly a d => exact Script.work_unlink leafOnly a d
  | archive id => exact Script.work_archive id
  | recover id => exact Script.work_recover id
  | purge id => exact Script.work_purge id
  | delete id => exact Script.work_delete id

/-! ## Calls in their contents -/

namespace Script

variable {α β : Type} {t t' : Contents k} {P : ∀ {γ : Type}, Call k γ → Contents k → Prop}

/-- Every call of a script is right for the contents that it meets. -/
def Each (P : ∀ {γ : Type}, Call k γ → Contents k → Prop) : Script k α → Contents k → Prop
  | done _, _ => True
  | refuse _, _ => True
  | call c _ next, t => P c t ∧ ∀ b t', t.perform c = (.ok b, t') → (next b).Each P t'

theorem Each.ask {c : Call k α} {failed : StoreError → HierarchyError k} (hc : P c t) :
    (ask c failed).Each P t :=
  ⟨hc, fun _ _ _ => trivial⟩

/-- A call with an answer, and what is done with the answer. -/
theorem Each.step {c : Call k α} {failed : StoreError → HierarchyError k} {a : α}
    {f : α → Script k β} (hc : P c t) (hperform : t.perform c = (.ok a, t'))
    (hf : (f a).Each P t') : (Script.ask c failed >>= f).Each P t := by
  refine ⟨hc, fun b t'' hb => ?_⟩
  obtain ⟨he, rfl⟩ := Prod.mk.inj (hperform.symm.trans hb)
  obtain rfl := Except.ok.inj he
  exact hf

/-- What is done after a script meets the contents that its work leaves. -/
theorem Each.bind {w : Script k α} {f : α → Script k β} (hw : w.Each P t)
    (hf : ∀ a t', w.work {} t = .ok (a, t') → (f a).Each P t') : (w >>= f).Each P t := by
  change (w.bind f).Each P t
  induction w generalizing t with
  | done a => exact hf a t rfl
  | refuse e => trivial
  | call c failed next ih =>
    obtain ⟨hc, hnext⟩ := hw
    refine ⟨hc, fun b t' hb => ih b (hnext b t' hb) fun a t'' ha => hf a t'' ?_⟩
    rw [work, Work.bind_apply, Work.ask_apply rfl, hb]
    exact ha

section Branches

variable {p : Prop} [Decidable p] {w w' : Script k β}

theorem Each.ite (hw : p → w.Each P t) (hw' : ¬ p → w'.Each P t) :
    (if p then w else w').Each P t := by
  split
  · exact hw ‹_›
  · exact hw' ‹_›

/-- A script that goes on unless it is refused. -/
theorem Each.guard {f : Unit → Script k β} {e : HierarchyError k} (hf : ¬ p → (f ()).Each P t) :
    (if p then refuse e >>= f else f ()).Each P t :=
  .ite (fun _ => trivial) hf

end Branches

end Script

/-! ## Sound calls -/

/-- Rows that a call addresses are there. -/
def Call.Addresses {α : Type} (t : Contents k) : Call k α → Prop
  | updateDepths rows | deletePaths rows => ∀ p ∈ rows, ∃ depth, t.paths.get? p.pair = some depth
  | _ => True

/-- The store does not reject a call, and rows that the call addresses are there. -/
structure Call.Sound {α : Type} (c : Call k α) (t : Contents k) : Prop where
  accepted : ∃ a, (t.perform c).1 = .ok a
  addressed : c.Addresses t

/-- Whether a call can be rejected by no store and addresses no rows. -/
def Call.isPlain {α : Type} : Call k α → Bool
  | insertNode _ => false
  | insertPaths _ => false
  | updateDepths _ => false
  | deletePaths _ => false
  | _ => true

theorem Call.Sound.plain {α : Type} {c : Call k α} {t : Contents k} (hc : c.isPlain = true) :
    c.Sound t := by
  cases c with
  | insertNode | insertPaths | updateDepths | deletePaths => cases hc
  | _ => exact ⟨⟨_, rfl⟩, trivial⟩

/-- A batch of rows for free pairs is stored. -/
theorem Call.Sound.insertPaths {rows : List (Path k)} {t : Contents k}
    (hnodup : (rows.map Path.pair).Nodup) (hfree : ∀ p ∈ rows, t.paths.get? p.pair = none) :
    (Call.insertPaths rows).Sound t :=
  ⟨⟨(), by rw [Contents.perform, Contents.insertPaths_eq hnodup hfree]⟩, trivial⟩

namespace Script

variable {α β : Type} {t t' : Contents k}

/-- Every call of a script is sound in the contents that it meets. -/
def Sound : Script k α → Contents k → Prop
  | done _, _ => True
  | refuse _, _ => True
  | call c _ next, t => c.Sound t ∧ ∀ b t', t.perform c = (.ok b, t') → (next b).Sound t'

theorem sound_iff_each {w : Script k α} : w.Sound t ↔ w.Each Call.Sound t := by
  induction w generalizing t with
  | done a => exact Iff.rfl
  | refuse e => exact Iff.rfl
  | call c failed next ih => exact and_congr_right' (forall₃_congr fun b _ _ => ih b)

theorem Sound.ask {c : Call k α} {failed : StoreError → HierarchyError k} (hc : c.Sound t) :
    (ask c failed).Sound t :=
  sound_iff_each.2 (.ask hc)

/-- A call with an answer, and what is done with the answer. -/
theorem Sound.step {c : Call k α} {failed : StoreError → HierarchyError k} {a : α}
    {f : α → Script k β} (hc : c.Sound t) (hperform : t.perform c = (.ok a, t'))
    (hf : (f a).Sound t') : (Script.ask c failed >>= f).Sound t :=
  sound_iff_each.2 (.step hc hperform (sound_iff_each.1 hf))

/-- A call that needs no more than to be made. -/
theorem Sound.plain {c : Call k α} {failed : StoreError → HierarchyError k} {a : α}
    {f : α → Script k β} (hperform : t.perform c = (.ok a, t')) (hf : (f a).Sound t')
    (hc : c.isPlain = true) : (Script.ask c failed >>= f).Sound t :=
  .step (.plain hc) hperform hf

/-- What is done after a script meets the contents that its work leaves. -/
theorem Sound.bind {w : Script k α} {f : α → Script k β} (hw : w.Sound t)
    (hf : ∀ a t', w.work {} t = .ok (a, t') → (f a).Sound t') : (w >>= f).Sound t :=
  sound_iff_each.2 (.bind (sound_iff_each.1 hw) fun a t' ha => sound_iff_each.1 (hf a t' ha))

section Branches

variable {p : Prop} [Decidable p] {w w' : Script k β}

theorem Sound.ite (hw : p → w.Sound t) (hw' : ¬ p → w'.Sound t) :
    (if p then w else w').Sound t :=
  sound_iff_each.2 (.ite (fun hp => sound_iff_each.1 (hw hp)) fun hp => sound_iff_each.1 (hw' hp))

/-- A script that goes on unless it is refused. -/
theorem Sound.guard {f : Unit → Script k β} {e : HierarchyError k} (hf : ¬ p → (f ()).Sound t) :
    (if p then refuse e >>= f else f ()).Sound t :=
  .ite (fun _ => trivial) hf

end Branches

/-- A new node whose id and code were looked for is not rejected, nor is its own row, if rows are
those of nodes. -/
theorem sound_add (hrows : ∀ x y d, t.paths.get? (x, y) = some d → t.records.Knows x)
    (node : Node k) : (add node).Sound t := by
  refine .plain rfl (.guard fun hid => ?_) rfl
  refine .plain rfl (.guard fun hcode => ?_) rfl
  have hinsert : t.perform (.insertNode node) =
      (.ok (), { t with active := t.active.insert node.id node }) := by
    rw [Contents.perform, Contents.insertNode, if_neg hid, if_neg hcode]
  refine .step ⟨⟨(), by rw [hinsert]⟩, trivial⟩ hinsert (.ask (.insertPaths (by simp) ?_))
  intro p hp
  obtain rfl := List.mem_singleton.1 hp
  rw [Option.eq_none_iff_forall_ne_some]
  exact fun d hd => hid (Contents.hasId_iff.2 (hrows _ _ d hd))

theorem sound_update (node : Node k) : (update node).Sound t := by
  refine .plain rfl ?_ rfl
  cases t.active.get? node.id with
  | none => trivial
  | some current =>
    have hwrite : ∀ t : Contents k, (do
        unless ← ask (.updateNode node) do refuse (.notFound (.node node.id)) :
        Script k Unit).Sound t :=
      fun t => .plain rfl (.ite (fun _ => trivial) fun _ => trivial) rfl
    refine .ite (fun _ => .plain rfl ?_ rfl) fun _ => hwrite t
    cases t.ownerOf node.code with
    | none => exact hwrite t
    | some owner => exact .guard fun _ => hwrite t

theorem sound_requireNode (id : NodeId k) : (requireNode id).Sound t :=
  .plain rfl (.ite (fun _ => trivial) fun _ => trivial) rfl

/-- The rows that link an edge are free, and the depths that are set are those of rows. -/
theorem sound_link (a d : NodeId k) : (link a d).Sound t := by
  refine .bind (sound_requireNode d) fun _ t _ => ?_
  refine .bind (sound_requireNode a) fun _ t _ => ?_
  refine .plain rfl (.guard fun _ => ?_) rfl
  refine .plain rfl (.guard fun _ => ?_) rfl
  refine .plain rfl (.plain rfl ?_ rfl) rfl
  have hinsert := Contents.insertPaths_linkPlan t a d
  refine .step ⟨⟨(), congrArg Prod.fst hinsert⟩, trivial⟩ hinsert (.ask ⟨⟨(), rfl⟩, ?_⟩)
  exact fun p hp => Contents.exists_get?_inserted (Contents.nodup_insert
    (Closure.nodup_linkCandidates _ _)) (Contents.stored_of_mem_shorten hp)

/-- The rows that a repair deletes are there, those that it inserts are free then, and the depths
that it sets are those of rows. -/
theorem sound_prune (t : Contents k) : (prune : Script k Unit).Sound t := by
  refine .plain rfl (.ite (fun _ => trivial) fun _ => ?_) rfl
  refine .step ⟨⟨_, rfl⟩, fun p hp => ⟨_, DepthMap.mem_rows.1 (Closure.mem_stale.1 hp).1⟩⟩ rfl ?_
  have hinsert := Contents.insertPaths_missing t
  refine .step ⟨⟨(), congrArg Prod.fst hinsert⟩, trivial⟩ hinsert
    (.ask ⟨⟨(), rfl⟩, fun p hp => ?_⟩)
  obtain ⟨hclosure, q, hq, e, -⟩ := Closure.mem_redepth.1 hp
  have hdepth : t.paths.get? p.pair = some q.depth := e ▸ DepthMap.mem_rows.1 hq
  refine Contents.exists_get?_inserted (Closure.nodup_missing t.rows) ⟨q.depth, ?_⟩
  have hkept : p.pair ∉ (Closure.reconcile t.rows).stale.map Path.pair := fun hstale => by
    rw [(Contents.mem_map_stale.1 hstale).2] at hclosure
    cases hclosure
  change (Contents.deleted _ t.paths).get? p.pair = _
  rw [Contents.get?_deleted, if_neg hkept, hdepth]

theorem sound_unlink (leafOnly : Bool) (a d : NodeId k) : (unlink leafOnly a d).Sound t := by
  have hcut : (do
      unless ← hasEdge a d do refuse (.notFound (.path a d))
      let _ ← ask (.deletePaths [Path.direct a d])
      prune : Script k Unit).Sound t := by
    refine .plain rfl (.ite (fun hedge => ?_) fun _ => trivial) rfl
    refine .step ⟨⟨_, rfl⟩, fun p hp => ?_⟩ rfl (sound_prune _)
    obtain rfl := List.mem_singleton.1 hp
    obtain ⟨_, hrow, -⟩ := (Option.any_eq_true _ _).1 hedge
    obtain ⟨depth, hdepth, -⟩ := Option.map_eq_some_iff.1 hrow
    exact ⟨depth, hdepth⟩
  cases leafOnly with
  | false => exact hcut
  | true => exact .plain rfl (.guard fun _ => hcut) rfl

theorem sound_detach (id : NodeId k) : (detach id).Sound t :=
  .plain rfl (.plain rfl (.bind (sound_prune _) fun _ _ _ => trivial) rfl) rfl

theorem sound_purge (id : NodeId k) : (purge id).Sound t :=
  .plain rfl (.ite (fun _ => trivial) fun _ =>
    .plain rfl (.bind (sound_detach id) fun _ _ _ => trivial) rfl) rfl

theorem sound_delete (id : NodeId k) : (delete id).Sound t :=
  .plain rfl (.ite (fun _ => .plain rfl (sound_detach id) rfl) fun _ => trivial) rfl

end Script

/-- In contents that hold a graph, every call of every change is sound. -/
theorem Change.sound {t : Contents k} {g : Dag k} (h : t.Holds g) (c : Change k) :
    c.script.Sound t := by
  cases c with
  | add node =>
    refine Script.sound_add (fun x y d hd => ?_) node
    rw [h.records_eq]
    exact (h.connected.1 ⟨d, hd⟩).1
  | update node => exact Script.sound_update node
  | link a d => exact Script.sound_link a d
  | unlink leafOnly a d => exact Script.sound_unlink leafOnly a d
  | archive id => exact .plain rfl (.ite (fun _ => trivial) fun _ => trivial) rfl
  | recover id => exact .plain rfl (.ite (fun _ => trivial) fun _ => trivial) rfl
  | purge id => exact Script.sound_purge id
  | delete id => exact Script.sound_delete id

end Lineage
