import Lineage.Page
import Lineage.Wire

/-!
# Windows, pages and slices as JSON
-/

namespace Lineage

/-- The shape of a window. -/
def Pagination.shape : Json.Shape := .record [("limit", .plain), ("offset", .plain)]

instance : Wire Pagination where
  shape := Pagination.shape
  encode p := .object [("limit", Wire.encode p.limit), ("offset", Wire.encode p.offset)]
  decode? j := do
    let r ← Record.open? Pagination.shape j
    let limit ← r.required? "limit"
    let offset ← r.required? "offset"
    some { limit, offset }

variable {α : Type} [Wire α]

/-- The shape of a page of items of a shape. -/
def Page.shape (item : Json.Shape) : Json.Shape :=
  .record [("items", .list item), ("total", .plain), ("pagination", Pagination.shape),
    ("has_more", .plain)]

instance : Wire (Page α) where
  shape := Page.shape (Wire.shape α)
  encode p := .object [("items", Wire.encode p.items), ("total", Wire.encode p.total),
    ("pagination", Wire.encode p.pagination), ("has_more", .bool p.hasMore)]
  decode? j := do
    let r ← Record.open? (Page.shape (Wire.shape α)) j
    let items ← r.required? "items"
    let total ← r.required? "total"
    let pagination ← r.required? "pagination"
    let hasMore ← r.required? "has_more"
    some { items, total, pagination, hasMore }

/-- The shape of a slice of items of a shape. -/
def Slice.shape (item : Json.Shape) : Json.Shape :=
  .record [("items", .list item), ("pagination", Pagination.shape), ("has_next", .plain)]

instance : Wire (Slice α) where
  shape := Slice.shape (Wire.shape α)
  encode s := .object [("items", Wire.encode s.items), ("pagination", Wire.encode s.pagination),
    ("has_next", .bool s.hasNext)]
  decode? j := do
    let r ← Record.open? (Slice.shape (Wire.shape α)) j
    let items ← r.required? "items"
    let pagination ← r.required? "pagination"
    let hasNext ← r.required? "has_next"
    some { items, pagination, hasNext }

end Lineage
