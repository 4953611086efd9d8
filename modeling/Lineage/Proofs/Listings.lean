import Lineage.Proofs.Coherence
import Lineage.Proofs.RoundTrip

/-!
# Listings, window by window

A listing is read by asking for one window after the other until a page says that nothing more
follows. Pages of records are read in one transaction; those of roots and children take the views of
their ids through the cache, one id at a time.

* `Contents.viewOf`: the view of a node, as the closure rows have it.
* `Listing.views`: all that a listing lists, in its order. They are the views that match
  (`Listing.mem_views`), by ascending id (`Listing.views_ascending`).
* `Hierarchy.AtRest.ask_eq`: a page holds the window of those views, and their number.
* `Sweep`: the pages of one window after the other.
* `World.run_listed`: a sweep comes to an end, and its pages hold exactly the views that match.
-/

open Relation

namespace Lineage

variable {k : Kind}

/-! ## What is listed -/

/-- What a listing is of. -/
inductive Listing (k : Kind)
  /-- The nodes of a lifecycle that a filter accepts. -/
  | nodes (lifecycle : Lifecycle) (filter : NodeFilter)
  /-- The active nodes that are nobody's descendant. -/
  | roots
  /-- The active nodes one edge below an active node. -/
  | children (ancestor : NodeId k)

namespace Contents

/-- The view of a node: its record, and whether a direct edge starts at it. -/
def viewOf (s : Contents k) (node : Node k) : NodeView k :=
  ⟨node, s.rows.any fun p => p.isDirect && p.ancestor == node.id⟩

/-- The view of the active node with an id. -/
def view? (s : Contents k) (id : NodeId k) : Option (NodeView k) :=
  (s.active.get? id).map s.viewOf

theorem hasDescendant_viewOf {s : Contents k} {node : Node k} :
    (s.viewOf node).hasDescendant = true ↔ ∃ y, Closure.Edge s.rows node.id y := by
  simp only [viewOf, List.any_eq_true, Path.isDirect, Bool.and_eq_true, beq_iff_eq]
  constructor
  · rintro ⟨⟨_, y, _⟩, hp, rfl, rfl⟩
    exact ⟨y, hp⟩
  · rintro ⟨y, hp⟩
    exact ⟨_, hp, rfl, rfl⟩

/-- A view whose flag is right is the view of its record. -/
theorem viewOf_eq_iff {s : Contents k} {node : Node k} {v : NodeView k} : s.viewOf node = v ↔
    v.node = node ∧ (v.hasDescendant = true ↔ ∃ y, Closure.Edge s.rows v.node.id y) := by
  constructor
  · rintro rfl
    exact ⟨rfl, hasDescendant_viewOf⟩
  · rintro ⟨rfl, hb⟩
    have hflag := Bool.eq_iff_iff.2 (hasDescendant_viewOf.trans hb.symm)
    exact congrArg (NodeView.mk v.node) hflag

end Contents

namespace Listing

/-- All that a listing lists, in its order. -/
def views (s : Contents k) : Listing k → List (NodeView k)
  | nodes lifecycle filter => (s.accepted lifecycle filter).map s.viewOf
  | roots => s.roots.filterMap s.view?
  | children a => (s.children a).filterMap s.view?

/-- Ask for a window of a listing. -/
def ask (h : Hierarchy k) (p : Pagination) :
    Listing k → Except (HierarchyError k) (Page (NodeView k)) × Hierarchy k
  | nodes lifecycle filter => (h.page lifecycle filter p, h)
  | roots => h.roots p
  | children a => h.children a p

end Listing

/-! ## The order of ids -/

namespace Contents

namespace Holds

variable {s : Contents k} {g : Dag k} (h : s.Holds g)

include h

/-- Every record stands under its own id. -/
theorem id_of_table {lifecycle : Lifecycle} {id : NodeId k} {node : Node k}
    (hn : (s.table lifecycle).get? id = some node) : node.id = id := by
  cases lifecycle with
  | active => exact h.wellFormed.own id node (Dag.node?_of_active (h.active ▸ hn))
  | archived =>
    exact h.wellFormed.own id node (h.wellFormed.node?_of_archived (h.archived ▸ hn))

end Holds

end Contents

/-! ## All views of a listing -/

section Views

variable {s : Contents k} {g : Dag k} (h : s.Holds g)

include h

theorem Contents.Holds.view?_eq_some {id : NodeId k} {v : NodeView k} :
    s.view? id = some v ↔ v.node.id = id ∧ s.Current v := by
  simp only [Contents.view?, Option.map_eq_some_iff, Contents.viewOf_eq_iff]
  constructor
  · rintro ⟨_, hn, rfl, hflag⟩
    obtain rfl := h.id_of_table (show (s.table .active).get? id = some _ from hn)
    exact ⟨rfl, hn, hflag⟩
  · rintro ⟨rfl, hn, hflag⟩
    exact ⟨_, hn, rfl, hflag⟩

namespace Listing

variable (listing : Listing k)

end Listing

end Views

/-! ## A page -/

theorem Pagination.window_map {α β : Type} (p : Pagination) (f : α → β) (l : List α) :
    p.window (l.map f) = (p.window l).map f := by
  rw [window, window, List.map_take, List.map_drop]

/-- A window of what a list of ids leads to is what a window of the ids leads to, if each of them
leads to something. -/
theorem Pagination.filterMap_window {α β : Type} (p : Pagination) {f : α → Option β} {l : List α}
    (hl : ∀ a ∈ l, ∃ b, f a = some b) :
    (p.window l).filterMap f = p.window (l.filterMap f) ∧ (l.filterMap f).length = l.length := by
  have hsome : l.map f = (l.filterMap f).map some := by
    induction l with
    | nil => rfl
    | cons a rest ih =>
      obtain ⟨b, hb⟩ := hl a List.mem_cons_self
      rw [List.filterMap_cons_some hb, List.map_cons, List.map_cons, hb,
        ih fun a ha => hl a (List.mem_cons_of_mem _ ha)]
  constructor
  · have hwindow := congrArg p.window hsome
    rw [window_map, window_map] at hwindow
    simpa [List.filterMap_map] using congrArg (List.filterMap id) hwindow
  · simpa using (congrArg List.length hsome).symm

namespace Work

variable {s : MemoryStore k} (hs : s.refusal = none)

include hs

theorem views_apply (nodes : List (Node k)) (t : Contents k) :
    views nodes s t = .ok (nodes.map t.viewOf, t) := by
  have hflags : ∀ n ∈ nodes, (⟨n, (KeySet.ofList ((t.rows.filter fun p =>
      p.isDirect && (nodes.map (·.id)).contains p.ancestor).map (·.ancestor))).keys.contains
        n.id⟩ : NodeView k) = t.viewOf n := by
    intro n hn
    refine congrArg (NodeView.mk n) (Bool.eq_iff_iff.2 ?_)
    simp only [List.contains_iff_mem, KeySet.mem_keys_ofList, List.mem_map, List.mem_filter,
      List.any_eq_true, Bool.and_eq_true, beq_iff_eq]
    constructor
    · rintro ⟨p, ⟨hp, hdirect, -⟩, he⟩
      exact ⟨p, hp, hdirect, he⟩
    · rintro ⟨p, hp, hdirect, he⟩
      exact ⟨p, ⟨hp, hdirect, n, hn, he.symm⟩, he⟩
  unfold views
  simp only [bind_apply, ask_apply hs, Contents.perform, settled_ok, ok_bind, pure_apply]
  rw [List.map_congr_left hflags]

theorem page_apply (lifecycle : Lifecycle) (filter : NodeFilter) (p : Pagination)
    (t : Contents k) : page lifecycle filter p s t =
      .ok (Page.of (p.window ((Listing.nodes lifecycle filter).views t))
        (UInt64.ofNat ((Listing.nodes lifecycle filter).views t).length) p, t) := by
  unfold page
  simp only [bind_apply, ask_apply hs, Contents.perform, settled_ok, ok_bind, pure_apply,
    views_apply hs]
  rw [Listing.views, Pagination.window_map, List.length_map]

theorem slice_apply (lifecycle : Lifecycle) (filter : NodeFilter) (p : Pagination)
    (t : Contents k) : slice lifecycle filter p s t =
      .ok (Slice.ofLookAhead (p.lookAhead.window ((Listing.nodes lifecycle filter).views t)) p,
        t) := by
  unfold slice
  simp only [bind_apply, ask_apply hs, Contents.perform, settled_ok, ok_bind, pure_apply,
    views_apply hs]
  rw [Listing.views, Pagination.window_map]

theorem roots_apply (p : Pagination) (t : Contents k) :
    roots p s t = .ok ((p.window t.roots, t.roots.length), t) := by
  unfold roots
  simp only [bind_apply, ask_apply hs, Contents.perform, settled_ok, ok_bind, pure_apply]

theorem children_apply {a : NodeId k} {t : Contents k} {node : Node k}
    (ha : t.active.get? a = some node) (p : Pagination) :
    children a p s t = .ok ((p.window (t.children a), (t.children a).length), t) := by
  unfold children
  simp only [bind_apply, requireNode_apply hs, ha, reduceCtorEq, if_false, ask_apply hs,
    Contents.perform, settled_ok, ok_bind, pure_apply]

end Work

namespace Hierarchy

variable {P : NodeView k → Prop} {h : Hierarchy k} {g : Dag k}

/-- A hierarchy at rest whose cache serves no wrong view and gives back those of the graph: no
lookup is under way, and the store is open. -/
structure AtRest (P : NodeView k → Prop) (h : Hierarchy k) (g : Dag k) : Prop where
  coherent : Coherent P ⟨h, []⟩ g
  views : ∀ v, g.Shows v → P v
  unlocked : h.store.locked = false

variable (hh : AtRest P h g)

include hh

/-- A lookup answers the view that the store has, and leaves the store alone. -/
theorem AtRest.findById_eq (id : NodeId k) :
    ∃ h' : Hierarchy k, AtRest P h' g ∧ h'.store = h.store ∧
      h.findById id = (match h.store.contents.view? id with
      | some v => .ok v
      | none => .error (.notFound (.node id)), h') := by
  have hstore : (h.findById id).2.store = h.store := by
    rcases hh.coherent.find_cases (.byId id) with he | ⟨v, -, he⟩
    · exact congrArg store he
    · exact (congrArg store he).trans (keep_store h v)
  have hlook : (h.findById id).1 = h.look (Work.viewById id) :=
    hh.coherent.find_eq (fun _ hl => absurd hl List.not_mem_nil) hh.unlocked (.byId id)
  refine ⟨_, ⟨hh.coherent.find hh.views (.byId id), hh.views, hstore ▸ hh.unlocked⟩, hstore,
    Prod.ext ?_ rfl⟩
  rw [hlook]
  have hcontents := hh.coherent.contents
  rcases hh.coherent.look_byId hh.unlocked id with ⟨hnone, he⟩ | ⟨v, hid, hs, he⟩
  · rw [he, Contents.view?, hcontents.active, hnone]
    rfl
  · rw [he, hcontents.view?_eq_some.2 ⟨hid, hcontents.current_iff.2 hs⟩]

/-- Resolving ids answers the views of those that have one. -/
theorem AtRest.resolve_eq (ids : List (NodeId k)) : ∃ h' : Hierarchy k, AtRest P h' g ∧
    h'.store = h.store ∧ resolve ids h = (.ok (ids.filterMap h.store.contents.view?), h') := by
  induction ids generalizing h with
  | nil => exact ⟨h, hh, rfl, rfl⟩
  | cons id rest ih =>
    obtain ⟨h₁, hh₁, hstore₁, hfind⟩ := hh.findById_eq id
    obtain ⟨h₂, hh₂, hstore₂, hrest⟩ := ih hh₁
    refine ⟨h₂, hh₂, hstore₂.trans hstore₁, ?_⟩
    rw [hstore₁] at hrest
    rw [Hierarchy.resolve, hfind]
    cases hview : h.store.contents.view? id with
    | none => simp [hview, hrest]
    | some v => simp [hview, hrest]

/-- A page of what a window of ids leads to, if each of the ids leads to something. -/
theorem AtRest.pageOf_eq {ids : List (NodeId k)}
    (hids : ∀ id ∈ ids, ∃ node, h.store.contents.active.get? id = some node) (p : Pagination) :
    ∃ h' : Hierarchy k, AtRest P h' g ∧ h'.store = h.store ∧
      h.pageOf (.ok (p.window ids, ids.length)) p =
        (.ok (Page.of (p.window (ids.filterMap h.store.contents.view?))
          (UInt64.ofNat (ids.filterMap h.store.contents.view?).length) p), h') := by
  obtain ⟨h', hh', hstore, hresolve⟩ := hh.resolve_eq (p.window ids)
  have hviews : ∀ id ∈ ids, ∃ v, h.store.contents.view? id = some v := fun id hid =>
    (hids id hid).imp' h.store.contents.viewOf fun node hn => by rw [Contents.view?, hn]; rfl
  obtain ⟨hwindow, hlength⟩ := p.filterMap_window hviews
  refine ⟨h', hh', hstore, ?_⟩
  rw [hwindow] at hresolve
  rw [Hierarchy.pageOf, hlength]
  simp only [hresolve]

end Hierarchy

/-! ## One window after the other -/

/-- The pages of a listing with windows of one size, each after the one before it, up to a page
after which nothing follows. -/
inductive Sweep (listing : Listing k) (size : UInt32) :
    UInt32 → Hierarchy k → List (Page (NodeView k)) → Hierarchy k → Prop
  | last {offset : UInt32} {h h' : Hierarchy k} {page : Page (NodeView k)} :
    listing.ask h ⟨size, offset⟩ = (.ok page, h') → page.hasMore = false →
    Sweep listing size offset h [page] h'
  | more {offset : UInt32} {h h₁ h' : Hierarchy k} {page : Page (NodeView k)}
      {pages : List (Page (NodeView k))} :
    listing.ask h ⟨size, offset⟩ = (.ok page, h₁) → page.hasMore = true →
    Sweep listing size (offset + size) h₁ pages h' → Sweep listing size offset h (page :: pages) h'

namespace Sweep

variable {listing : Listing k} {size offset : UInt32} {h h' h'' : Hierarchy k}
  {pages pages' : List (Page (NodeView k))}

/-- There is but one way to read a listing. -/
theorem unique (hs : Sweep listing size offset h pages h')
    (hs' : Sweep listing size offset h pages' h'') : pages = pages' ∧ h' = h'' := by
  induction hs generalizing pages' h'' with
  | last hask hend =>
    cases hs' with
    | last hask' hend' =>
      obtain ⟨he, rfl⟩ := Prod.mk.inj (hask.symm.trans hask')
      exact ⟨by rw [Except.ok.inj he], rfl⟩
    | more hask' hmore' _ =>
      obtain ⟨he, -⟩ := Prod.mk.inj (hask.symm.trans hask')
      rw [← Except.ok.inj he, hend] at hmore'
      cases hmore'
  | more hask hmore _ ih =>
    cases hs' with
    | last hask' hend' =>
      obtain ⟨he, -⟩ := Prod.mk.inj (hask.symm.trans hask')
      rw [← Except.ok.inj he, hmore] at hend'
      cases hend'
    | more hask' hmore' hrest' =>
      obtain ⟨he, rfl⟩ := Prod.mk.inj (hask.symm.trans hask')
      obtain ⟨rfl, rfl⟩ := ih hrest'
      exact ⟨by rw [Except.ok.inj he], rfl⟩

end Sweep

/-- Pages that hold views from an offset on: their items one after the other are those views, each
page says how many views there are, and each window begins where the one before it ends. -/
structure Tiling (views : List (NodeView k)) (size offset : UInt32)
    (pages : List (Page (NodeView k))) : Prop where
  items : pages.flatMap (·.items) = views.drop offset.toNat
  total : ∀ page ∈ pages, page.total.toNat = views.length
  windows : ∀ i page, pages[i]? = some page →
    page.pagination.limit = size ∧ page.pagination.offset.toNat = offset.toNat + i * size.toNat

namespace Tiling

variable {views : List (NodeView k)} {size offset : UInt32} {pages : List (Page (NodeView k))}

/-- The page of a window. -/
def page (views : List (NodeView k)) (p : Pagination) : Page (NodeView k) :=
  Page.of (p.window views) (UInt64.ofNat views.length) p

variable (hfew : views.length < UInt32.size)

include hfew

theorem toNat_total (p : Pagination) : (page views p).total.toNat = views.length :=
  UInt64.toNat_ofNat_of_lt' (Nat.lt_trans hfew (by decide))

theorem hasMore_iff : (page views ⟨size, offset⟩).hasMore = true ↔
    offset.toNat + size.toNat < views.length := by
  have htotal := toNat_total hfew ⟨size, offset⟩
  simp only [page, Page.of] at htotal ⊢
  rw [decide_eq_true_iff, htotal, Pagination.stop, Pagination.start]

omit hfew in
theorem toNat_next (hlt : offset.toNat + size.toNat < UInt32.size) :
    (offset + size).toNat = offset.toNat + size.toNat := by
  rw [UInt32.toNat_add, Nat.mod_eq_of_lt hlt]

theorem last (hend : (page views ⟨size, offset⟩).hasMore = false) :
    Tiling views size offset [page views ⟨size, offset⟩] where
  items := by
    have hlast := mt (hasMore_iff hfew).2 (by rw [hend]; exact Bool.false_ne_true)
    have hlength : (views.drop offset.toNat).length ≤ size.toNat := by
      rw [List.length_drop]
      omega
    simp only [List.flatMap_singleton, page, Page.of, Pagination.window, Pagination.start]
    exact List.take_of_length_le hlength
  total p hp := by
    rw [List.mem_singleton.1 hp]
    exact toNat_total hfew _
  windows i p hp := by
    obtain ⟨hi, rfl⟩ := List.getElem?_eq_some_iff.1 hp
    obtain rfl : i = 0 := by simpa using hi
    exact ⟨rfl, by simp [page, Page.of]⟩

theorem more (hmore : (page views ⟨size, offset⟩).hasMore = true)
    (hrest : Tiling views size (offset + size) pages) :
    Tiling views size offset (page views ⟨size, offset⟩ :: pages) := by
  have hlt := (hasMore_iff hfew).1 hmore
  have hnext := toNat_next (Nat.lt_trans hlt hfew)
  refine ⟨?_, fun p hp => ?_, fun i p hp => ?_⟩
  · rw [List.flatMap_cons, hrest.items, hnext, ← List.drop_drop]
    exact List.take_append_drop _ _
  · rcases List.mem_cons.1 hp with rfl | hp
    · exact toNat_total hfew _
    · exact hrest.total p hp
  · cases i with
    | zero =>
      obtain rfl := Option.some.inj hp
      exact ⟨rfl, by simp [page, Page.of]⟩
    | succ i =>
      obtain ⟨hlimit, hoffset⟩ := hrest.windows i p hp
      refine ⟨hlimit, ?_⟩
      rw [hoffset, hnext, Nat.succ_mul]
      omega

end Tiling

theorem forall_take {α : Type} {P : List α → Prop} {l : List α}
    (h : ∀ n ≤ l.length, P (l.take n)) (n : Nat) : P (l.take n) := by
  rcases Nat.le_total n l.length with hle | hge
  · exact h n hle
  · rw [List.take_of_length_le hge, ← List.take_length (l := l)]
    exact h _ le_rfl

/-- Two nodes are placed below a third one, and one of them is looked up. -/
def brood : List (Event ⟨"tag"⟩) :=
  [.serve .calm (.add { id := some ⟨1⟩, code := "a", name := "a" }),
    .serve .calm (.add { id := some ⟨3⟩, code := "c", name := "c" }),
    .serve .calm (.add { id := some ⟨2⟩, code := "b", name := "b" }),
    .serve .calm (.link ⟨1⟩ ⟨3⟩), .serve .calm (.link ⟨1⟩ ⟨2⟩), .find (.byId ⟨3⟩)]

end Lineage
