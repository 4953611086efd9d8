/-!
# Pages and slices of listings

A `Pagination` is a window of at most `limit` items from `offset` on. A `Page` is the window's
items with the number of all matches; a `Slice` does without that number and knows only whether
another item follows, which is found by asking for one item more (`Pagination.lookAhead`).

Counters are 32 bits wide and stop at their largest value instead of wrapping.
-/

namespace Lineage

/-- The window size when none is asked for. -/
def defaultPageSize : UInt32 := 50
/-- The largest window a caller may ask for. -/
def maxPageSize : UInt32 := 1000

/-- A window over a listing. -/
structure Pagination where
  limit : UInt32
  offset : UInt32
  deriving DecidableEq, Repr, Inhabited

namespace Pagination

/-- The window used when none is asked for. -/
def initial : Pagination := ⟨defaultPageSize, 0⟩

/-- A size within the bounds of what a caller may ask for. -/
def clampSize (size : UInt32) : UInt32 := if size < 1 then 1 else min size maxPageSize

/-- The largest 32-bit number. -/
def largest : Nat := UInt32.size - 1

/-- The window a caller asks for, with defaults filled in and the size clamped. -/
def of (limit offset : Option UInt32) : Pagination :=
  ⟨clampSize (limit.getD defaultPageSize), offset.getD 0⟩

/-- The window of a page number counted from one; page zero is page one. -/
def page (current size : UInt32) : Pagination :=
  let limit := clampSize size
  ⟨limit, UInt32.ofNat (min ((current.toNat - 1) * limit.toNat) largest)⟩

/-- The index of the first item. -/
def start (p : Pagination) : Nat := p.offset.toNat

/-- The index after the last item. -/
def stop (p : Pagination) : Nat := p.start + p.limit.toNat

/-- The same window with room for one more item. -/
def lookAhead (p : Pagination) : Pagination :=
  ⟨UInt32.ofNat (min (p.limit.toNat + 1) largest), p.offset⟩

/-- The items of a listing that lie in the window. -/
def window {α : Type} (p : Pagination) (items : List α) : List α :=
  (items.drop p.start).take p.limit.toNat

end Pagination

/-- A window's items with the number of all matches. -/
structure Page (α : Type) where
  items : List α
  total : UInt64
  pagination : Pagination
  hasMore : Bool
  deriving DecidableEq, Repr

namespace Page

variable {α β : Type}

/-- A page; more follows if there are matches beyond the window. -/
def of (items : List α) (total : UInt64) (p : Pagination) : Page α :=
  ⟨items, total, p, p.stop < total.toNat⟩

/-- The page with every item replaced. -/
def map (f : α → β) (page : Page α) : Page β :=
  ⟨page.items.map f, page.total, page.pagination, page.hasMore⟩

end Page

/-- A window's items and whether another one follows. -/
structure Slice (α : Type) where
  items : List α
  pagination : Pagination
  hasNext : Bool
  deriving DecidableEq, Repr

/-- The slice of items that were fetched with one more than fits the window. -/
def Slice.ofLookAhead {α : Type} (items : List α) (p : Pagination) : Slice α :=
  ⟨items.take p.limit.toNat, p, p.limit.toNat < items.length⟩

end Lineage
