import Lineage.Proofs.Listings
import Lineage.Proofs.Recovery

/-!
# Slices and pages

A page counts all matches to say whether more of them follow its window. A slice of the same window
fetches one item more and says whether there was one. Both give the same answer, as long as there is
room for the further item and the matches can be counted.

* `Page.slice`: a page without the number of all matches.
* `Pagination.take_lookAhead`, `Pagination.overflows_iff`: what the further item is good for.
* `Hierarchy.slice_eq_page`: a slice of records is a page of them without that number.
* `World.run_sliced`: so it is after every run.
-/

namespace Lineage

/-! ## Windows of lists -/

/-- What a page says about its window, without the number of all matches. -/
def Page.slice {α : Type} (page : Page α) : Slice α := ⟨page.items, page.pagination, page.hasMore⟩

namespace Pagination

variable {α : Type} {p : Pagination}

theorem length_window (items : List α) :
    (p.window items).length = min p.limit.toNat (items.length - p.start) := by
  rw [window, List.length_take, List.length_drop]

variable (hroom : p.limit.toNat < largest)

include hroom

/-- Below the largest limit there is room for one more item. -/
theorem limit_lookAhead : p.lookAhead.limit.toNat = p.limit.toNat + 1 := by
  rw [lookAhead, Nat.min_eq_left hroom]
  exact UInt32.toNat_ofNat_of_lt' (Nat.succ_lt_of_lt_pred hroom)

/-- Without the further item the window is as before. -/
theorem take_lookAhead (items : List α) :
    (p.lookAhead.window items).take p.limit.toNat = p.window items := by
  rw [window, limit_lookAhead hroom, List.take_take, Nat.min_eq_left (Nat.le_succ _)]
  rfl

/-- There is a further item iff the listing goes on after the window. -/
theorem overflows_iff (items : List α) :
    p.limit.toNat < (p.lookAhead.window items).length ↔ p.stop < items.length := by
  rw [length_window, limit_lookAhead hroom, show p.lookAhead.start = p.start from rfl, stop]
  omega

end Pagination

/-- The slice with a further item is the page of the counted items. -/
theorem Slice.ofLookAhead_eq {α : Type} {p : Pagination}
    (hroom : p.limit.toNat < Pagination.largest) {items : List α}
    (hcount : items.length < UInt64.size) :
    Slice.ofLookAhead (p.lookAhead.window items) p =
      (Page.of (p.window items) (UInt64.ofNat items.length) p).slice := by
  have htotal : (UInt64.ofNat items.length).toNat = items.length :=
    UInt64.toNat_ofNat_of_lt' hcount
  simp only [Slice.ofLookAhead, Page.of, Page.slice, Pagination.take_lookAhead hroom,
    Pagination.overflows_iff hroom, htotal]

/-! ## Slices of records -/

variable {k : Kind}

theorem Listing.length_nodes_le (s : Contents k) (lifecycle : Lifecycle) (filter : NodeFilter) :
    ((nodes lifecycle filter).views s).length ≤ (s.table lifecycle).size := by
  rw [views, List.length_map, Table.size, ← List.length_map (f := Prod.snd)]
  exact List.length_filter_le _ _

namespace Hierarchy

variable {h : Hierarchy k} (hr : h.store.refusal = none)

include hr

/-- A slice of records is a page of them without the number of all matches. -/
theorem slice_eq_page {p : Pagination} (hroom : p.limit.toNat < Pagination.largest)
    (lifecycle : Lifecycle) (filter : NodeFilter)
    (hcount : (h.store.contents.table lifecycle).size < UInt64.size) :
    h.slice lifecycle filter p = (h.page lifecycle filter p).map Page.slice := by
  rw [slice, page]
  cases hl : h.store.locked with
  | true =>
    rw [look_of_locked hr hl, look_of_locked hr hl]
    rfl
  | false =>
    have hviews := Nat.lt_of_le_of_lt
      (Listing.length_nodes_le h.store.contents lifecycle filter) hcount
    rw [look_of_open hr hl (Work.slice_apply hr lifecycle filter p h.store.contents),
      look_of_open hr hl (Work.page_apply hr lifecycle filter p h.store.contents),
      Slice.ofLookAhead_eq hroom hviews]
    rfl

end Hierarchy

/-- After every run from an empty store a slice of the records that a filter accepts has the items
of the page of the same window, in their order, and says that more follows iff the page does. There
is a page unless the store is locked; then both fail alike. The window may be empty and may begin
anywhere; there has to be room in a counter for one more item, and for the number of all nodes. -/
theorem World.run_sliced (h : Hierarchy k) (hstart : h.store = {}) (events : List (Event k))
    (lifecycle : Lifecycle) (filter : NodeFilter) (p : Pagination)
    (hroom : p.limit.toNat < Pagination.largest)
    (hcount : ((run ⟨h, []⟩ events).contents.table lifecycle).size < UInt64.size) :
    let w := run ⟨h, []⟩ events
    let answer := w.hierarchy.page lifecycle filter p
    w.hierarchy.slice lifecycle filter p = answer.map Page.slice ∧
      (w.hierarchy.store.locked = false → ∃ page, answer = .ok page ∧
        page.items = p.window ((Listing.nodes lifecycle filter).views w.contents) ∧
        (page.hasMore = true ↔
          p.stop < ((Listing.nodes lifecycle filter).views w.contents).length)) ∧
      (w.hierarchy.store.locked = true → answer = .error (.store MemoryStore.lockedError)) := by
  intro w answer
  have hr : w.hierarchy.store.refusal = none := by rw [run_refusal, hstart]
  refine ⟨Hierarchy.slice_eq_page hr hroom lifecycle filter hcount, fun hl => ?_, fun hl =>
    Hierarchy.look_of_locked hr hl _⟩
  refine ⟨_, Hierarchy.look_of_open hr hl (Work.page_apply hr lifecycle filter p w.contents), rfl,
    ?_⟩
  have hviews := Nat.lt_of_le_of_lt (Listing.length_nodes_le w.contents lifecycle filter) hcount
  rw [Page.of, decide_eq_true_iff, UInt64.toNat_ofNat_of_lt' hviews]

/-- Of three nodes the last two fill a window to its end, so that nothing follows it. -/
theorem World.run_sliced_brood :
    let h := (World.run ⟨{ cache := .memory {} }, []⟩ brood).hierarchy
    ∃ page, h.page .active {} ⟨2, 1⟩ = .ok page ∧ h.slice .active {} ⟨2, 1⟩ = .ok page.slice ∧
      page.items.map (·.node.id) = [⟨2⟩, ⟨3⟩] ∧ page.hasMore = false := by
  intro h
  obtain ⟨hslice, hpage, -⟩ := run_sliced { cache := .memory {} } rfl brood .active {} ⟨2, 1⟩
    (by decide) (by decide +kernel)
  obtain ⟨page, hok, hitems, hmore⟩ := hpage (by decide +kernel)
  refine ⟨page, hok, hslice.trans (by rw [hok]; rfl), ?_, ?_⟩
  · rw [hitems]
    decide +kernel
  · rw [← Bool.not_eq_true, hmore]
    decide +kernel

end Lineage
