import Lineage.Proofs.Keys
import Lineage.Proofs.Lawful

/-!
# What is written as JSON is read back

The text of a value is read back as the value. Where a type holds free JSON or instants, these have
to be legible, and the JSON of the whole value must be nested no deeper than a reader follows.

* `Wire.read?_write_each`: the round trip, type by type, and through a server.
* `Wire.embedding_not_read`: the condition on embedding keys is needed. A reader of free JSON takes
  an object that begins with such a key for something else.
-/

namespace Lineage

variable {k : Kind}

/-- The JSON of a value is nested no deeper than a reader of text follows. -/
def Wire.Shallow {α : Type} [Wire α] (a : α) : Prop := (Wire.encode a).depth ≤ Json.maxDepth

instance {α : Type} [Wire α] (a : α) : Decidable (Wire.Shallow a) :=
  inferInstanceAs (Decidable ((Wire.encode a).depth ≤ Json.maxDepth))

/-! ## Depth

The JSON of a type without free JSON is never nested too deep. -/

namespace Json

theorem itemsDepth_le {items : List Json} {d : Nat} (h : ∀ j ∈ items, j.depth ≤ d) :
    itemsDepth items ≤ d := by
  induction items with
  | nil => exact Nat.zero_le d
  | cons j items ih =>
    obtain ⟨hj, hitems⟩ := List.forall_mem_cons.1 h
    exact Nat.max_le.2 ⟨hj, ih hitems⟩

end Json

namespace Wire

theorem depth_ids (ids : List (NodeId k)) : (encode ids).depth ≤ 1 :=
  Nat.succ_le_succ <| Json.itemsDepth_le fun _ hj => by
    obtain ⟨id, -, rfl⟩ := List.mem_map.1 hj
    exact Nat.le_refl 0

theorem shallow_filter (f : NodeFilter) : Shallow f := by
  obtain ⟨code, name⟩ := f
  cases code <;> cases name <;> exact Nat.le_of_ble_eq_true rfl

theorem shallow_principal (p : Principal) : Shallow p := by
  have hroles := depth_ids p.roles
  have hpermissions := depth_ids p.permissions
  have hdepth : (encode p).depth =
    max 0 (max (encode p.roles).depth (max (encode p.permissions).depth 0)) + 1 := rfl
  rw [Shallow, hdepth, Json.maxDepth]
  omega

theorem shallow_kind (j : JobKind) : Shallow j := by
  cases j <;> exact Nat.le_of_ble_eq_true rfl

theorem shallow_status (s : JobStatus) : Shallow s := by
  cases s <;> exact Nat.le_of_ble_eq_true rfl

theorem shallow_policy (p : RetryPolicy) : Shallow p := by
  obtain ⟨_, _, _, backoff⟩ := p
  cases backoff <;> exact Nat.le_of_ble_eq_true rfl

theorem shallow_path (p : Path k) : Shallow p := Nat.le_of_ble_eq_true rfl

end Wire

/-! ## All types -/

namespace Wire

/-- What is written of a value is read back as the value: of every value of a type without free
JSON and instants, and of the others if these are legible and the whole is not nested too deep. So
a view that was put on a server is got from it. -/
theorem read?_write_each (k : Kind) :
    (∀ id : NodeId k, read? (write id) = some id) ∧
    (∀ p : Path k, read? (write p) = some p) ∧
    (∀ f : NodeFilter, read? (write f) = some f) ∧
    (∀ p : Pagination, read? (write p) = some p) ∧
    (∀ c : Consumer, read? (write c) = some c) ∧
    (∀ p : Principal, read? (write p) = some p) ∧
    (∀ j : JobKind, read? (write j) = some j) ∧
    (∀ s : JobStatus, read? (write s) = some s) ∧
    (∀ b : Backoff, read? (write b) = some b) ∧
    (∀ p : RetryPolicy, read? (write p) = some p) ∧
    (∀ n : Node k, (∀ e ∈ n.extensions.entries, e.2.Legible) → Shallow n →
      read? (write n) = some n) ∧
    (∀ n : NewNode k, (∀ e ∈ n.extensions.entries, e.2.Legible) → Shallow n →
      read? (write n) = some n) ∧
    (∀ v : NodeView k, (∀ e ∈ v.node.extensions.entries, e.2.Legible) → Shallow v →
      read? (write v) = some v) ∧
    (∀ (α : Type) [Wire α] [Lawful α] (p : Page α), (∀ a ∈ p.items, Lawful.Legible a) →
      Shallow p → read? (write p) = some p) ∧
    (∀ (α : Type) [Wire α] [Lawful α] (s : Slice α), (∀ a ∈ s.items, Lawful.Legible a) →
      Shallow s → read? (write s) = some s) ∧
    (∀ j : Job, j.Legible → Shallow j → read? (write j) = some j) ∧
    (∀ d : DeadLetter, d.job.Legible → d.since.IsCivil → Shallow d →
      read? (write d) = some d) ∧
    (∀ (c : RemoteCache k) (v : NodeView k), (∀ e ∈ v.node.extensions.entries, e.2.Legible) →
      Shallow v → (c.put v).get v.node.id = .ok (some v)) := by
  refine ⟨fun id => ?id, fun p => ?path, fun f => ?filter, fun p => ?pagination,
    fun c => ?consumer, fun p => ?principal, fun j => ?kind, fun s => ?status, fun b => ?backoff,
    fun p => ?policy, fun n h => ?node, fun n h => ?newNode, fun v h => ?view,
    fun α _ _ p h => ?page, fun α _ _ s h => ?slice, fun j h => ?job, fun d hj hs => ?deadLetter,
    fun c v h hv => ?cached⟩
  case id => exact read?_write trivial (Nat.zero_le _)
  case path => exact read?_write trivial (shallow_path p)
  case filter => exact read?_write trivial (shallow_filter f)
  case pagination => exact read?_write trivial (Nat.le_of_ble_eq_true rfl)
  case consumer => exact read?_write trivial (Nat.le_of_ble_eq_true rfl)
  case principal => exact read?_write trivial (shallow_principal p)
  case kind => exact read?_write trivial (shallow_kind j)
  case status => exact read?_write trivial (shallow_status s)
  case backoff => exact read?_write trivial (by cases b <;> exact Nat.zero_le _)
  case policy => exact read?_write trivial (shallow_policy p)
  case node => exact read?_write h
  case newNode => exact read?_write h
  case view => exact read?_write h
  case page => exact read?_write h
  case slice => exact read?_write h
  case job => exact read?_write h
  case deadLetter => exact read?_write (a := d) (And.intro hj hs)
  case cached => rw [RemoteCache.get_put, read?_write (a := v) h hv]

/-- A tag with nested extensions, a page and a slice of it, and a job given up in a leap year. -/
theorem read?_write_each_tagged :
    let x : Json := .object [("a", .array [.int 7, .null]), ("b", .string "\"")]
    let n : Node ⟨"tag"⟩ :=
      { id := ⟨-1⟩, code := "c\n", name := "é", extensions := Table.ofList [("x", x)] }
    let v : NodeView ⟨"tag"⟩ := ⟨n, true⟩
    let new : NewNode ⟨"tag"⟩ := { code := n.code, name := n.name, extensions := n.extensions }
    let page : Page (NodeView ⟨"tag"⟩) := ⟨[v], 2, ⟨1, 0⟩, true⟩
    let slice : Slice (NodeView ⟨"tag"⟩) := ⟨[v], ⟨1, 0⟩, true⟩
    let t : Instant := ⟨1709251199123000000, false⟩
    let j : Job :=
      { id := ⟨5⟩, kind := .custom "m", payload := x, created := t, updated := t, scheduled := t }
    let d : DeadLetter := ⟨j, t, "refused"⟩
    ((∀ e ∈ n.extensions.entries, e.2.Legible) ∧ Shallow n ∧ Shallow new ∧ Shallow v ∧
      Shallow page ∧ Shallow slice ∧ j.Legible ∧ t.IsCivil ∧ Shallow j ∧ Shallow d) ∧
    read? (write n) = some n ∧ read? (write new) = some new ∧ read? (write v) = some v ∧
      read? (write page) = some page ∧ read? (write slice) = some slice ∧
      read? (write j) = some j ∧ read? (write d) = some d ∧
      ((default : RemoteCache ⟨"tag"⟩).put v).get ⟨-1⟩ = .ok (some v) := by
  intro x n v new page slice t j d
  have hx : x.Legible := ⟨rfl, by decide, by decide⟩
  have hextensions : ∀ e ∈ n.extensions.entries, e.2.Legible :=
    List.forall_mem_singleton.2 hx
  have ht : t.IsCivil := ⟨rfl, by decide, by decide⟩
  have hj : j.Legible := ⟨hx, ht, ht, by rintro _ ⟨⟩; exact ht⟩
  have hn : Shallow n := by decide +kernel
  have hnew : Shallow new := by decide +kernel
  have hv : Shallow v := by decide +kernel
  have hpage : Shallow page := by decide +kernel
  have hslice : Shallow slice := by decide +kernel
  have hjob : Shallow j := by decide +kernel
  have hd : Shallow d := by decide +kernel
  obtain ⟨-, -, -, -, -, -, -, -, -, -, hnode, hnewNode, hview, hpages, hslices, hjobs, hletters,
    hcached⟩ := read?_write_each ⟨"tag"⟩
  exact ⟨⟨hextensions, hn, hnew, hv, hpage, hslice, hj, ht, hjob, hd⟩, hnode n hextensions hn,
    hnewNode new hextensions hnew, hview v hextensions hv,
    hpages _ page (List.forall_mem_singleton.2 hextensions) hpage,
    hslices _ slice (List.forall_mem_singleton.2 hextensions) hslice, hjobs j hj hjob,
    hletters d hj ht hd, hcached default v hextensions hv⟩

/-- A view is not read back if an object of its free JSON begins with the embedding key, though the
object is canonical and without fractions. -/
theorem embedding_not_read :
    let x : Json := .object [(Json.embeddingKey, .string "2"), ("a", .int 1)]
    let v : NodeView ⟨"tag"⟩ :=
      ⟨{ id := ⟨1⟩, code := "c", name := "n", extensions := Table.ofList [("x", x)] }, false⟩
    x.canonical = x ∧ x.isIntegral = true ∧ Shallow v ∧
      read? (write v) = (none : Option (NodeView ⟨"tag"⟩)) ∧
      ((default : RemoteCache ⟨"tag"⟩).put v).get ⟨1⟩ =
        .error (.serialization ("no view: " ++ write v)) := by
  intro x v
  have hshallow : Shallow v := by decide +kernel
  have hread : read? (write v) = (none : Option (NodeView ⟨"tag"⟩)) :=
    Option.isNone_iff_eq_none.1 (by decide +kernel)
  exact ⟨rfl, rfl, hshallow, hread, (RemoteCache.get_put default v).trans (by rw [hread])⟩

end Wire

end Lineage
