import Lineage.Settings
import Lineage.Sql.Reply

/-!
# The store in a database

A store that keeps a hierarchy in a database. Every call within a transaction becomes at most one
statement. The server is given by its replies: it answers the statements it gets one after the
other and keeps them.

* `Store.connect`: the store that settings name.
* `Store.begin`, `Store.perform`, `Store.commit`: a transaction.
* `Store.migrate`: create the tables.
-/

namespace Lineage.Sql

/-- A server: the replies it will give, and the statements it got, the last one first. -/
structure Server where
  replies : List Reply := []
  received : List Statement := []
  deriving Inhabited

namespace Server

/-- Take a statement and reply. A server without a reply does nothing and says that it is done. -/
def reply (s : Server) (st : Statement) : Reply × Server :=
  match s.replies with
  | r :: rest => (r, { replies := rest, received := st :: s.received })
  | [] => (.done {}, { s with received := st :: s.received })

/-- Carry out a statement for an operation. -/
def run (s : Server) (operation : String) (st : Statement) : Except Error Result × Server :=
  match s.reply st with
  | (.done r, s) => (.ok r, s)
  | (.error code message, s) => (.error (.server operation code message), s)
  | (.hangup, s) => (.error (.disconnected operation), s)

end Server

/-- Where calls are made from. -/
inductive Caller
  /-- A thread that can wait for the server. -/
  | waiting
  /-- The only thread of a runtime, which must not wait. -/
  | singleThread
  /-- A thread without a runtime that could talk to the server. -/
  | noRuntime
  deriving DecidableEq, Repr, Inhabited

/-- Why a caller cannot wait for the server. -/
def Caller.obstacle? : Caller → Option String
  | waiting => none
  | singleThread =>
    some ("PostgresHierarchyStore cannot block a current-thread runtime; " ++
      "use a multi-threaded runtime or call it from a plain thread")
  | noRuntime =>
    some ("PostgresHierarchyStore has no tokio runtime; " ++
      "create it inside one or pass one with with_runtime")

/-- A store in a database, as seen by a caller. -/
structure Store (k : Kind) where
  caller : Caller := .waiting
  deriving DecidableEq, Repr, Inhabited

/-- A transaction: whether its connection still stands. -/
structure Transaction where
  connected : Bool := true
  deriving DecidableEq, Repr, Inhabited

namespace Store

variable {k : Kind}

/-- The store that settings name. -/
def connect (s : Settings) (caller : Caller) : Except Error (Store k) :=
  match s.databaseUrl with
  | some _ => .ok ⟨caller⟩
  | none => .error (.noConnection "DATABASE_URL is not set")

/-- The tables of the store. -/
def tables (_ : Store k) : Tables := Tables.ofKind k

/-- Begin a transaction, on a new connection if the last one was lost. -/
def begin (s : Store k) (server : Server) : Except Error Transaction × Server :=
  match s.caller.obstacle? with
  | some detail => (.error (.noConnection detail), server)
  | none =>
    match server.run "begin_transaction" ⟨"BEGIN", []⟩ with
    | (.ok _, server) => (.ok {}, server)
    | (.error e, server) => (.error e, server)

/-- Carry out a statement on the connection of a transaction. Nothing is sent on a lost one. -/
def send (t : Transaction) (server : Server) (operation : String) (st : Statement) :
    Except Error Result × Transaction × Server :=
  if t.connected then
    match server.run operation st with
    | (.error (.disconnected operation), server) =>
      (.error (.disconnected operation), { t with connected := false }, server)
    | (r, server) => (r, t, server)
  else (.error (.disconnected operation), t, server)

/-- Answer a call. -/
def perform {α : Type} (s : Store k) (t : Transaction) (server : Server) (c : Call k α) :
    Except Error α × Transaction × Server :=
  match statement? s.tables c with
  | none => (answer c {}, t, server)
  | some st =>
    match send t server (operation c) st with
    | (.ok r, t, server) => (answer c r, t, server)
    | (.error e, t, server) => (.error e, t, server)

/-- Commit a transaction. -/
def commit (t : Transaction) (server : Server) : Except Error Unit × Server :=
  match send t server "commit_transaction" ⟨"COMMIT", []⟩ with
  | (.ok _, _, server) => (.ok (), server)
  | (.error e, _, server) => (.error e, server)

/-- Carry out statements one after the other, up to the first that is refused. -/
def runAll (operation : String) : List Statement → Server → Except Error Unit × Server
  | [], server => (.ok (), server)
  | st :: rest, server =>
    match server.run operation st with
    | (.ok _, server) => runAll operation rest server
    | (.error e, server) => (.error e, server)

/-- Create the tables where they are missing. -/
def migrate (s : Store k) (server : Server) : Except Error Unit × Server :=
  runAll "migrate" (s.tables.schema.map fun text => ⟨text, []⟩) server

end Store

end Lineage.Sql
