import Lineage.Access.Principal
import Lineage.Access.View

/-!
# Access checks

A principal holds roles and permissions. A held role brings the roles below it; every one of these
brings the permissions granted to it; every permission so held brings the permissions below it.

* `Access.effective`: all permissions of a principal.
* `Access.explain`: whether one of them is the required permission, and why.
* `Access.authorize`: the bare decision.
-/

namespace Lineage

/-- Why a principal may not do something. -/
inductive AccessError
  | forbidden (code : String)
  | unknownPermission (code : String)
  /-- A question about a hierarchy could not be answered. -/
  | hierarchy (detail : String)
  deriving DecidableEq, Repr

/-- The refusal in words. -/
def AccessError.message : AccessError → String
  | forbidden code => "forbidden: missing permission '" ++ code ++ "'"
  | unknownPermission code => "unknown permission '" ++ code ++ "'"
  | hierarchy detail => "hierarchy lookup failed: " ++ detail

namespace Access

/-- Why a permission is held or not. -/
inductive Reason
  | direct
  | implied
  | missing
  deriving DecidableEq, Repr

/-- The reason in words, for the permission with a code. -/
def Reason.text (r : Reason) (code : String) : String :=
  match r with
  | direct => "permission '" ++ code ++ "' is assigned directly"
  | implied => "permission '" ++ code ++ "' is implied by a held role or permission"
  | missing => "no held role or permission implies '" ++ code ++ "'"

/-- A decision with all it rests on. -/
structure Explanation where
  principal : Uuid
  required : String
  granted : Bool
  reason : Reason
  effective : KeySet PermissionId
  deriving DecidableEq

/-- Add keys to a set. -/
def extend {κ : Type} [Ord κ] [Std.TransOrd κ] (s : KeySet κ) (l : List κ) : KeySet κ :=
  l.foldl (fun s x => s.insert x ()) s

/-- An answer of a view, or the reason why there is none. -/
def ask {α : Type} (answer : Except String α) : Except AccessError α :=
  match answer with
  | .ok a => .ok a
  | .error detail => .error (.hierarchy detail)

variable (principal : Principal) (roles : View .role) (permissions : View .permission)
  (grants : RoleId → List PermissionId)

/-- Every permission of a principal, direct or implied. -/
def effective : Except AccessError (KeySet PermissionId) := do
  let lower ← ask (roles.descendantIds principal.roles)
  let held := extend (KeySet.ofList principal.roles) lower
  let granted := extend (KeySet.ofList principal.permissions) (held.keys.flatMap grants)
  let implied ← ask (permissions.descendantIds granted.keys)
  return extend granted implied

/-- Decide whether a principal holds the permission with a code. An unknown code is refused before
anything else is looked up. -/
def explain (required : String) : Except AccessError Explanation := do
  match ← ask (permissions.idByCode required) with
  | none => throw (.unknownPermission required)
  | some id =>
    let held ← effective principal roles permissions grants
    let granted := held.contains id
    let reason :=
      if principal.permissions.contains id then .direct
      else if granted then .implied
      else .missing
    return { principal := principal.id, required, granted, reason, effective := held }

/-- Decide whether a principal holds the permission with a code. -/
def authorize (required : String) : Except AccessError Unit := do
  let e ← explain principal roles permissions grants required
  if e.granted then return () else throw (.forbidden required)

end Access

end Lineage
