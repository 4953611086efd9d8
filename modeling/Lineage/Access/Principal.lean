import Lineage.Ident
import Lineage.Uuid

/-!
# Principals

Roles and permissions are two hierarchies. A principal holds some of both; what these imply is not
stored with it.
-/

namespace Lineage

/-- The hierarchy of roles: a role implies the roles below it. -/
def Kind.role : Kind := ⟨"role"⟩

/-- The hierarchy of permissions: a permission implies the permissions below it. -/
def Kind.permission : Kind := ⟨"permission"⟩

/-- A role. -/
abbrev RoleId := NodeId Kind.role

/-- A permission. -/
abbrev PermissionId := NodeId Kind.permission

/-- Someone who acts, with the roles and permissions held directly. -/
structure Principal where
  id : Uuid
  roles : List RoleId := []
  permissions : List PermissionId := []
  deriving DecidableEq, Repr, Inhabited

end Lineage
