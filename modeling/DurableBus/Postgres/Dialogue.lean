import DurableBus.Json.Reader
import DurableBus.Postgres.Statement

/-!
# Talking to the database

A `Dialogue` is what a client does on a connection: it says one line, gets a response, and goes on from there. What the
database answers is not decided here; `Dialogue.run` carries a dialogue out against any database and lists the lines in
order. `transaction` frames a dialogue: it is committed only if everything in it succeeded, and rolled back otherwise,
also when the commit fails.
-/

set_option autoImplicit false

namespace DurableBus.Postgres

/-- What is said. -/
inductive Command
  /-- A connection is asked for; this is no statement. -/
  | connect
  | begin
  | commit
  | rollback
  | query (s : Statement)

namespace Command

/-- The text of a command that is a statement. -/
def sql? : Command → Option String
  | connect => none
  | begin => some "BEGIN"
  | commit => some "COMMIT"
  | rollback => some "ROLLBACK"
  | query s => some s.sql

def parameters : Command → List Parameter
  | query s => s.parameters
  | _ => []

end Command

/-- What is said, and whether a transaction is open on the connection before it. -/
structure Line where
  inTransaction : Bool
  command : Command

/-- A value in a row. -/
inductive Cell
  | null
  | int (i : Int)
  | text (s : String)
  | uuid (u : Uuid)
  | bytes (b : Bytes)
  /-- A document, as the text that was stored. -/
  | json (text : Bytes)
  /-- Microseconds since 2000. -/
  | instant (micros : Int)
deriving DecidableEq, Repr

/-- The values of a row by column. -/
abbrev Row := List (String × Cell)

/-- What the database answers to a command it has carried out. -/
structure Outcome where
  rows : List Row := []
  /-- How many rows the command has changed. -/
  affected : Nat := 1
deriving DecidableEq, Repr

/-- Which column could not be read: by its name, or by its place. -/
inductive Column
  | named (name : String)
  | at (place : Nat)
deriving DecidableEq, Repr

/-- Why an operation on the database fails. -/
inductive Error
  /-- The database says so. -/
  | refused (code message : String)
  /-- A query that must return a row returned none. -/
  | noRow
  | poolClosed
  /-- No connection could be had in time. -/
  | poolTimedOut
  /-- A value is missing or of another type. -/
  | unreadable (column : Column)
  /-- The address of the database makes no sense. -/
  | badAddress
  /-- The database cannot be reached. -/
  | unreachable
  /-- Metadata is JSON, but no object of strings. -/
  | badMetadata (problem : Json.Problem)
deriving DecidableEq, Repr

namespace Error

/-- What went wrong, where the text does not hang on the other side. -/
def detail? : Error → Option String
  | refused _ message => some ("error returned from database: " ++ message)
  | noRow => some "no rows returned by a query that expected to return at least one row"
  | poolClosed => some "attempted to acquire a connection on a closed pool"
  | poolTimedOut => some "pool timed out while waiting for an open connection"
  | _ => none

/-- The text of the error; it ends its line. -/
def message (e : Error) : String :=
  match e with
  | badMetadata _ => "Serde error: metadata is no object of strings\n"
  | unreadable _ => "Database error: a column cannot be read\n"
  | badAddress => "Database error: the address makes no sense\n"
  | unreachable => "Database error: the database cannot be reached\n"
  | e => "Database error: " ++ e.detail?.getD "" ++ "\n"

def code? : Error → Option String
  | refused code _ => some code
  | _ => none

/-- Whether a refusal to connect may pass by itself: the database is full, or still starting. -/
def isTransient (e : Error) : Bool := e.code? == some "53300" || e.code? == some "57P03"

end Error

/-- A response: an outcome, or why there is none. -/
abbrev Response := Except Error Outcome

/-- What a client does on a connection, and what comes of it. -/
inductive Dialogue (α : Type)
  | done (a : α)
  | say (line : Line) (next : Response → Dialogue α)

namespace Dialogue

variable {α β σ : Type}

def bind (d : Dialogue α) (f : α → Dialogue β) : Dialogue β :=
  match d with
  | done a => f a
  | say line next => say line fun response => (next response).bind f

instance : Monad Dialogue where
  pure := done
  bind := bind

/-- Carries a dialogue out against a database: what comes of it, the lines in order, and the database afterwards. -/
def run (database : σ → Line → Response × σ) (s : σ) : Dialogue α → α × List Line × σ
  | done a => (a, [], s)
  | say line next =>
    let (response, s) := database s line
    let (a, lines, s) := run database s (next response)
    (a, line :: lines, s)

def tell (inTransaction : Bool) (command : Command) : Dialogue Response :=
  say ⟨inTransaction, command⟩ done

def query (inTransaction : Bool) (s : Statement) : Dialogue Response := tell inTransaction (.query s)

/-- Goes on with what has succeeded. -/
def andThen {ε : Type} (d : Dialogue (Except ε α)) (f : α → Dialogue (Except ε β)) : Dialogue (Except ε β) :=
  d.bind fun
    | .ok a => f a
    | .error e => done (.error e)

/-- Puts queries until one fails. -/
def queries (inTransaction : Bool) : List Statement → Dialogue (Except Error Unit)
  | [] => done (.ok ())
  | s :: rest => (query inTransaction s).andThen fun _ => queries inTransaction rest

/-- Gives a transaction up. -/
def abandon (inTransaction : Bool) (e : Error) : Dialogue (Except Error α) :=
  say ⟨inTransaction, .rollback⟩ fun _ => done (.error e)

/-- Ends an open transaction by a commit; if that fails the transaction is over and is given up. -/
def commit (a : α) : Dialogue (Except Error α) :=
  (tell true .commit).bind fun
    | .ok _ => done (.ok a)
    | .error e => abandon false e

/-- Ends an open transaction by a rollback; if that fails it is given up. -/
def rollback : Dialogue (Except Error Unit) :=
  (tell true .rollback).bind fun
    | .ok _ => done (.ok ())
    | .error e => abandon false e

/-- Carries out a dialogue inside a transaction of its own. -/
def transaction (d : Dialogue (Except Error α)) : Dialogue (Except Error α) :=
  (tell false .begin).andThen fun _ => d.bind fun
    | .ok a => commit a
    | .error e => abandon true e

end Dialogue

end DurableBus.Postgres
