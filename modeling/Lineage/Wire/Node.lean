import Lineage.Node
import Lineage.Path
import Lineage.Wire

/-!
# Nodes and rows as JSON

Ids are bare integers. The description and the extensions of a node have defaults, as has the id
of a new node.
-/

namespace Lineage

variable {k : Kind}

instance : Wire (NodeId k) where
  encode id := Wire.encode id.raw
  decode? j := (Wire.decode? j).map NodeId.mk

/-- The shape of a closure row. -/
def Path.shape : Json.Shape :=
  .record [("ancestor", .plain), ("descendant", .plain), ("depth", .plain)]

instance : Wire (Path k) where
  shape := Path.shape
  encode p := .object [("ancestor", Wire.encode p.ancestor),
    ("descendant", Wire.encode p.descendant), ("depth", Wire.encode p.depth)]
  decode? j := do
    let r ← Record.open? Path.shape j
    let ancestor ← r.required? "ancestor"
    let descendant ← r.required? "descendant"
    let depth ← r.required? "depth"
    some { ancestor, descendant, depth }

/-- The shape of a node, new or not. -/
def Node.shape : Json.Shape :=
  .record [("id", .plain), ("code", .plain), ("name", .plain), ("description", .plain),
    ("extensions", .plain)]

instance : Wire (Node k) where
  shape := Node.shape
  encode n := .object [("id", Wire.encode n.id), ("code", .string n.code), ("name", .string n.name),
    ("description", .string n.description), ("extensions", Wire.encode n.extensions)]
  decode? j := do
    let r ← Record.open? Node.shape j
    let id ← r.required? "id"
    let code ← r.required? "code"
    let name ← r.required? "name"
    let description ← r.defaulted? "description" ""
    let extensions ← r.defaulted? "extensions" ∅
    some { id, code, name, description, extensions }

instance : Wire (NewNode k) where
  shape := Node.shape
  encode n := .object [("id", Wire.encode n.id), ("code", .string n.code), ("name", .string n.name),
    ("description", .string n.description), ("extensions", Wire.encode n.extensions)]
  decode? j := do
    let r ← Record.open? Node.shape j
    let id ← r.defaulted? "id" none
    let code ← r.required? "code"
    let name ← r.required? "name"
    let description ← r.defaulted? "description" ""
    let extensions ← r.defaulted? "extensions" ∅
    some { id, code, name, description, extensions }

/-- The shape of a node view. -/
def NodeView.shape : Json.Shape := .record [("node", Node.shape), ("has_descendant", .plain)]

instance : Wire (NodeView k) where
  shape := NodeView.shape
  encode v := .object [("node", Wire.encode v.node), ("has_descendant", .bool v.hasDescendant)]
  decode? j := do
    let r ← Record.open? NodeView.shape j
    let node ← r.required? "node"
    let hasDescendant ← r.required? "has_descendant"
    some { node, hasDescendant }

/-- The shape of a filter. -/
def NodeFilter.shape : Json.Shape := .record [("code", .plain), ("name", .plain)]

instance : Wire NodeFilter where
  shape := NodeFilter.shape
  encode f := .object [("code", Wire.encode f.code), ("name", Wire.encode f.name)]
  decode? j := do
    let r ← Record.open? NodeFilter.shape j
    let code ← r.optional? "code"
    let name ← r.optional? "name"
    some { code, name }

end Lineage
