import Lineage.Ident

/-!
# Errors

`StoreError` is a failure of storage. `HierarchyError` is what an operation on a hierarchy answers
when it refuses or fails: every cause but `scheduler` and `store` is a rejection of the request,
decided by the state of the hierarchy alone.
-/

namespace Lineage

/-- A failure of storage, with the text it came with. -/
inductive StoreError
  /-- The store cannot be reached. -/
  | unavailable (detail : String)
  /-- A uniqueness or reference rule refused a write. -/
  | constraint (detail : String)
  /-- A row could not be decoded. -/
  | serialization (detail : String)
  /-- Any other failure. -/
  | backend (detail : String)
  deriving DecidableEq, Repr

/-- The failure in words. -/
def StoreError.message : StoreError → String
  | unavailable detail => "store unavailable: " ++ detail
  | constraint detail => "constraint violated: " ++ detail
  | serialization detail => "serialization failed: " ++ detail
  | backend detail => "backend error: " ++ detail

/-- What is taken already when a node cannot be stored. -/
inductive Clash (k : Kind)
  | id (id : NodeId k)
  | code (code : String)
  /-- A rule of the store, in its own words. -/
  | rule (detail : String)
  deriving DecidableEq, Repr

/-- What is taken, in words. -/
def Clash.text {k : Kind} : Clash k → String
  | .id n => "id " ++ n.text
  | .code c => "code '" ++ c ++ "'"
  | .rule detail => detail

/-- What was looked for in vain. -/
inductive Sought (k : Kind)
  | node (id : NodeId k)
  | code (code : String)
  | archived (id : NodeId k)
  | path (ancestor descendant : NodeId k)
  /-- Anything else, by a name of its own. -/
  | named (key : String)
  deriving DecidableEq, Repr

/-- What was looked for, in words. -/
def Sought.text {k : Kind} : Sought k → String
  | .node n => n.text
  | .code c => "code '" ++ c ++ "'"
  | .archived n => "archived " ++ n.text
  | .path a d => "path " ++ a.text ++ " -> " ++ d.text
  | .named key => key

/-- Why an operation on the hierarchy of kind `k` did not take place. -/
inductive HierarchyError (k : Kind)
  /-- The id or code belongs to another node, active or archived. -/
  | conflict (clash : Clash k)
  /-- The edge would make a node its own ancestor. -/
  | cycle (ancestor descendant : NodeId k)
  /-- The direct edge is there already. -/
  | duplicatePath (ancestor descendant : NodeId k)
  /-- The edge's descendant has descendants of its own. -/
  | descendantHasDescendant (descendant : NodeId k)
  /-- The node still has consumers. -/
  | inUse (id : NodeId k) (codes : List String)
  | notFound (sought : Sought k)
  | validation (reason : String)
  /-- The later purge could not be scheduled. -/
  | scheduler (reason : String)
  | store (cause : StoreError)
  deriving DecidableEq, Repr

namespace HierarchyError

variable {k : Kind}

/-- The error in words. -/
def message : HierarchyError k → String
  | conflict clash => k.name ++ " id or code already exists: " ++ clash.text
  | cycle a d =>
    k.name ++ " " ++ d.text ++ " is already an ancestor of " ++ a.text ++
      "; edge would create a cycle"
  | duplicatePath a d => k.name ++ " path " ++ a.text ++ " -> " ++ d.text ++ " already exists"
  | descendantHasDescendant d =>
    k.name ++ " " ++ d.text ++ " still has descendants; detach them first"
  | inUse id codes => k.name ++ " " ++ id.text ++ " is in use by: " ++ ", ".intercalate codes
  | notFound sought => k.name ++ " not found: " ++ sought.text
  | validation reason => "validation failed: " ++ reason
  | scheduler reason => "scheduling failed: " ++ reason
  | store cause => cause.message

/-- Whether the request was refused, as opposed to a failure of the machinery. -/
def isRejection : HierarchyError k → Bool
  | scheduler _ => false
  | store _ => false
  | _ => true

/-- A constraint of the store that refuses a node means that its id or code is taken. -/
def ofNodeWrite : StoreError → HierarchyError k
  | .constraint detail => conflict (.rule detail)
  | cause => store cause

end HierarchyError

end Lineage
