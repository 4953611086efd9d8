import Lineage.Cache.Address
import Lineage.Cache.Address.Escape

/-!
# Addresses of cache servers

A cache server is reached over a network (`redis:`, with a host, and a database number as the path)
or through a file (`unix:`, with a path, and a database number in the query). `Address.flaw?` says
what keeps an address from being used; the server itself is not looked up.
-/

namespace Lineage.Address

/-- What keeps an address from being used. -/
inductive Flaw
  /-- The text is no address, or its scheme is another one. -/
  | unreadable
  | noHost
  /-- There is no path on this host. -/
  | noPath
  /-- The scheme asks for an encrypted connection. -/
  | encrypted
  | badDatabase
  | badUser
  | badPassword
  deriving DecidableEq, Repr

/-- The flaw in words. -/
def Flaw.text : Flaw → String
  | unreadable => "Redis URL did not parse- InvalidClientConfig"
  | noHost => "Missing hostname- InvalidClientConfig"
  | noPath => "Missing path- InvalidClientConfig"
  | encrypted => "can't connect with TLS, the feature is not enabled- InvalidClientConfig"
  | badDatabase => "Invalid database number- InvalidClientConfig"
  | badUser => "Username is not valid UTF-8 string- InvalidClientConfig"
  | badPassword => "Password is not valid UTF-8 string- InvalidClientConfig"

/-- The path between slashes, without the slashes at its ends. -/
def trimmedPath (a : Address) : List Char :=
  let text := ['/'].intercalate (a.path.getD [])
  ((text.dropWhile (· == '/')).reverse.dropWhile (· == '/')).reverse

/-- The flaw of an address on a network. -/
def networkFlaw? (a : Address) : Option Flaw :=
  if a.host.isNone then some .noHost
  else if a.scheme == "rediss" then some .encrypted
  else if !a.trimmedPath.isEmpty && (Text.integer? a.trimmedPath).isNone then some .badDatabase
  else if !isText a.user then some .badUser
  else if !isText a.password then some .badPassword
  else none

/-- The value of the last parameter of a query with a name. -/
def parameter? (a : Address) (name : List Char) : Option (List Char) :=
  let named := (split '&' a.query).filter fun p =>
    !p.isEmpty && queryText (p.takeWhile (· != '=')) == name
  named.getLast?.map fun p => queryText ((p.dropWhile (· != '=')).drop 1)

/-- The flaw of an address of a file, which is on no host or the local one. -/
def fileFlaw? (a : Address) : Option Flaw :=
  let isLocal := a.host.all (· == .name ['l', 'o', 'c', 'a', 'l', 'h', 'o', 's', 't'])
  if a.path.isNone || !isLocal then some .noPath
  else
    match a.parameter? ['d', 'b'] with
    | some value => if (Text.integer? value).isSome then none else some .badDatabase
    | none => none

/-- What keeps an address from being used, if anything. -/
def flaw? (s : String) : Option Flaw :=
  match read? s with
  | none => some .unreadable
  | some a =>
    if a.scheme == "redis" || a.scheme == "rediss" then a.networkFlaw?
    else if a.scheme == "unix" || a.scheme == "redis+unix" then a.fileFlaw?
    else some .unreadable

end Lineage.Address
