import Lineage.Report
import Lineage.Wire.Node
import Lineage.Wire.Page

/-!
# Requests

A request is a JSON object whose fields are read one by one, each as a value of the type it is
needed for. Other fields are ignored.

* `Request.get`, `get?`, `getD`: a field that must be there, may be missing, or has a default.
* `Request.page`, `Request.filter`: the window and the search of a listing.
* `Request.Fault`: why a request is not carried out.
-/

namespace Lineage

/-- The object of a request's fields. -/
abbrev Request := Json

/-- Why a request is not carried out. -/
inductive Request.Fault
  /-- A field is missing or does not fit its type. -/
  | unreadable
  /-- There is nothing of a sort by a name. -/
  | unknown (sort name : String)
  deriving DecidableEq, Repr

instance : Report Request.Fault where
  json
    | .unreadable => .object [("error", .string "decode")]
    | .unknown sort name => Report.failure "bad_request" ("unknown " ++ sort ++ " " ++ name)

namespace Request

variable {α : Type} [Wire α]

/-- The value of a type that a settled JSON value stands for. -/
def decode (j : Json) : Except Fault α :=
  match if j.isSettled (Wire.shape α) then Wire.decode? j else none with
  | some a => .ok a
  | none => .error .unreadable

/-- A field that must be there. -/
def get (r : Request) (name : String) : Except Fault α :=
  match r.member? name with
  | some j => decode j
  | none => .error .unreadable

/-- A field that may be missing or null. -/
def get? (r : Request) (name : String) : Except Fault (Option α) :=
  match r.member? name with
  | none | some .null => .ok none
  | some j => (decode j).map some

/-- A field with a default. -/
def getD (r : Request) (name : String) (default : α) : Except Fault α :=
  (r.get? name).map fun a => a.getD default

/-- A part of a request that is a request itself; without fields if it is missing. -/
def part (r : Request) (name : String) : Request := (r.member? name).getD (.object [])

/-- A field that is a text; the empty text otherwise. -/
def text (r : Request) (name : String) : String :=
  match r.member? name with
  | some (.string s) => s
  | _ => ""

/-- A field that is a flag; a default otherwise. -/
def flag (r : Request) (name : String) (default : Bool) : Bool :=
  match r.member? name with
  | some (.bool b) => b
  | _ => default

/-- The items of a field that is a list; none otherwise. -/
def items (r : Request) (name : String) : List Json :=
  match r.member? name with
  | some (.array items) => items
  | _ => []

/-- The window of a listing: by limit and offset, by page number and size, or as it stands. -/
def page (r : Request) : Except Fault Pagination :=
  match r.member? "page" with
  | none | some .null => .ok .initial
  | some p =>
    match p.member? "raw", p.member? "current" with
    | some raw, _ => decode raw
    | _, some _ => do return Pagination.page (← get p "current") (← get p "size")
    | _, _ => do return Pagination.of (← get? p "limit") (← get? p "offset")

/-- The search of a listing. -/
def filter (r : Request) : Except Fault NodeFilter := r.getD "filter" {}

end Request

end Lineage
