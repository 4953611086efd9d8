import Lineage.Ident
import Lineage.Json
import Lineage.Text.Blank
import Lineage.Text.Lower

/-!
# Nodes

A `Node` is one member of a hierarchy: a role, a permission, a tag. Its id and code are unique
among active and archived nodes.

* `NewNode`: what a caller hands in; the id may be left to a generator.
* `NodeView`: a node with the one fact about its edges that listings show.
* `NodeFilter`: a search for a piece of the code or the name, whatever the case.
* `Node.flaw?`: what is wrong with a node's fields.
-/

open Std

namespace Lineage

/-- The longest code, in characters. -/
def maxCodeLength : Nat := 100
/-- The longest name, in characters. -/
def maxNameLength : Nat := 200
/-- The longest description, in characters. -/
def maxDescriptionLength : Nat := 500

/-- Free attributes of a node, carried along untouched. -/
abbrev Extensions := Table String Json

/-- A node of the hierarchy of kind `k`. -/
structure Node (k : Kind) where
  id : NodeId k
  code : String
  name : String
  description : String := ""
  extensions : Extensions := ∅
  deriving Inhabited

/-- A node to be registered. Without an id it gets a generated one. -/
structure NewNode (k : Kind) where
  id : Option (NodeId k) := none
  code : String
  name : String
  description : String := ""
  extensions : Extensions := ∅

/-- What keeps a node's fields from being accepted. -/
inductive Flaw
  | blankCode
  | longCode
  | longName
  | longDescription
  deriving DecidableEq, Repr

namespace Flaw

/-- The flaw in words. -/
def text : Flaw → String
  | blankCode => "code must not be blank"
  | longCode => "code exceeds " ++ maxCodeLength.repr ++ " characters"
  | longName => "name exceeds " ++ maxNameLength.repr ++ " characters"
  | longDescription => "description exceeds " ++ maxDescriptionLength.repr ++ " characters"

/-- The first flaw of a code, a name and a description, in the order of the constructors. -/
def find? (code name description : String) : Option Flaw :=
  if Text.isBlankText code then some blankCode
  else if maxCodeLength < code.length then some longCode
  else if maxNameLength < name.length then some longName
  else if maxDescriptionLength < description.length then some longDescription
  else none

end Flaw

namespace Node

variable {k : Kind}

/-- What is wrong with the fields of a node, if anything. -/
def flaw? (n : Node k) : Option Flaw := Flaw.find? n.code n.name n.description

end Node

namespace NewNode

variable {k : Kind}

/-- What is wrong with the fields of a new node, if anything. -/
def flaw? (n : NewNode k) : Option Flaw := Flaw.find? n.code n.name n.description

/-- The node under its final id. -/
def toNode (n : NewNode k) (id : NodeId k) : Node k :=
  { id, code := n.code, name := n.name, description := n.description, extensions := n.extensions }

/-- The same node with an attribute set. -/
def withExtension (n : NewNode k) (key : String) (value : Json) : NewNode k :=
  { n with extensions := n.extensions.insert key value }

end NewNode

/-- A node as listings and the cache show it. -/
structure NodeView (k : Kind) where
  node : Node k
  /-- Whether the node is the ancestor of another one. -/
  hasDescendant : Bool

/-- A search by pieces of the code and the name. -/
structure NodeFilter where
  code : Option String := none
  name : Option String := none
  deriving DecidableEq, Repr, Inhabited

namespace NodeFilter

/-- Whether `needle`, if there is one, occurs in `hay` once both are in lowercase. -/
def occurs (needle : Option String) (hay : String) : Bool :=
  match needle with
  | none => true
  | some n => Text.contains (Text.lower hay.toList) (Text.lower n.toList)

/-- Whether both pieces of the filter occur in the node. -/
def accepts {k : Kind} (f : NodeFilter) (n : Node k) : Bool :=
  occurs f.code n.code && occurs f.name n.name

end NodeFilter

end Lineage
