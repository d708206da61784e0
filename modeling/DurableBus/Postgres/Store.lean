import DurableBus.Json.Message
import DurableBus.Postgres.Dialogue
import DurableBus.Store.Basic

/-!
# The relational store

What each request to the store says to the database and what it makes of the responses. Rows of a claim are read one
after the other; the first that cannot be read fails the claim.
-/

set_option autoImplicit false

namespace DurableBus

/-- The metadata that a JSON value holds: an object of strings. -/
def Metadata.ofJson? : Json.Value → Option Metadata
  | .object fields => fields.foldlM (fun m f => match f.2 with
      | .text s => some (m.put f.1 s)
      | _ => none) .empty
  | _ => none

namespace Postgres

/-! ## Rows -/

namespace Row

/-- The value in a column; a column that the row lacks is empty. -/
def cell (row : Row) (column : String) : Cell := ((row.find? (·.1 == column)).map (·.2)).getD .null

def read {α : Type} (row : Row) (column : String) (f : Cell → Option α) : Except Error α :=
  match f (row.cell column) with
  | some a => .ok a
  | none => .error (.unreadable (.named column))

def readFirst {α : Type} (row : Row) (f : Cell → Option α) : Except Error α :=
  match (row.head?.map (·.2)).bind f with
  | some a => .ok a
  | none => .error (.unreadable (.at 0))

end Row

namespace Cell

def int? : Cell → Option Int
  | .int i => some i
  | _ => none

def text? : Cell → Option String
  | .text s => some s
  | _ => none

def uuid? : Cell → Option Uuid
  | .uuid u => some u
  | _ => none

def bytes? : Cell → Option Bytes
  | .bytes b => some b
  | _ => none

/-- The document in a cell, if its text is JSON. -/
def json? : Cell → Option Json.Value
  | .json source => (Json.parse (Json.value Json.maxDepth) source).toOption
  | _ => none

/-- The microseconds since 2000 in a cell. -/
def instant? : Cell → Option Int
  | .instant t => some t
  | _ => none

end Cell

/-- Microseconds from 1970 to 2000. -/
def epochMicros : Int := 946684800000000

/-- The message that a row of a claim describes. -/
def readClaimed (group : String) (token : Uuid) (row : Row) : Except Error Claimed := do
  let offset ← row.read "offset_id" Cell.int?
  let id ← row.read "uuid" Cell.uuid?
  let payload ← row.read "payload" Cell.bytes?
  let document ← row.read "metadata" Cell.json?
  let createdAt ← row.read "created_at" Cell.instant?
  let attempts ← row.read "attempts" Cell.int?
  match Metadata.ofJson? document with
  | none => throw (.badMetadata .mismatched)
  | some metadata =>
    return ⟨⟨offset, group, token⟩, ⟨id, metadata, payload⟩, createdAt + epochMicros,
      if 0 ≤ attempts then attempts.toNat else 1⟩

/-! ## Requests -/

def setUp : Dialogue (Except Error Unit) :=
  .transaction (.queries true Statement.schema)

/-- The statements that store messages, in order. -/
def insertions (topic : String) (messages : List Message) : List Statement :=
  messages.map fun m => .insertMessage topic m.id m.payload m.metadata.toJson

/-- Stores messages, all or none. -/
def enqueue (topic : String) (messages : List Message) : Dialogue (Except Error Unit) :=
  .transaction (.queries true (insertions topic messages))

/-- Stores messages in a transaction that is already open, and stays open. -/
def stage (topic : String) (messages : List Message) : Dialogue (Except Error Unit) :=
  .queries true (insertions topic messages)

def head (topic : String) : Dialogue (Except Error Int) :=
  (Dialogue.query false (.head topic)).andThen fun outcome => .done (match outcome.rows with
    | [] => .error .noRow
    | row :: _ => row.readFirst Cell.int?)

/-- The greatest number of rows that a query can ask for. -/
def maxLimit : Nat := 0x7FFF_FFFF_FFFF_FFFF

def claim (request : ClaimRequest) (token : Uuid) : Dialogue (Except Error (List Claimed)) :=
  let limit := min request.limit maxLimit
  (Dialogue.query false
    (.claim request.topic request.group request.after limit token request.lease)).andThen fun outcome =>
      .done (outcome.rows.mapM (readClaimed request.group token))

def compact (topic group : String) : Dialogue (Except Error Unit) :=
  (Dialogue.query false (.advance topic group)).andThen fun _ => .done (.ok ())

/-- Makes a claim final and moves the watermark, or says that the claim was lost. -/
def ack (r : Receipt) : Dialogue (Except Error (Option Store.Notice)) :=
  (Dialogue.query false (.ack r.offset r.group r.token)).andThen fun outcome =>
    match outcome.rows with
    | [] => .done (.ok (some (.lostBeforeAck r)))
    | row :: _ =>
      match row.readFirst Cell.text? with
      | .ok topic => (compact topic r.group).andThen fun () => .done (.ok none)
      | .error e => .done (.error e)

/-- Gives a claim back, or says that it was lost. -/
def nack (r : Receipt) (redeliverAfter : Duration) : Dialogue (Except Error (Option Store.Notice)) :=
  (Dialogue.query false (.nack r.offset r.group r.token redeliverAfter)).andThen fun outcome =>
    .done (.ok (if outcome.affected = 0 then some (.lostBeforeNack r) else none))

/-- Restarts a lease; whether the claim was still held. -/
def renew (r : Receipt) (lease : Duration) : Dialogue (Except Error Bool) :=
  (Dialogue.query false (.renew r.offset r.group r.token lease)).andThen fun outcome =>
    .done (.ok (decide (0 < outcome.affected)))

def forgetGroup (topic group : String) : Dialogue (Except Error Unit) :=
  .transaction (.queries true [.deleteDeliveries topic group, .deleteOffset topic group])

end Postgres

end DurableBus
