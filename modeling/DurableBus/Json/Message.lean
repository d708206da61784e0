import DurableBus.Json.Reader
import DurableBus.Message

/-!
# Messages as JSON

A message is an object of its identifier, its metadata and its payload as an array of bytes. `Message.writeJson` takes
the order in which the metadata is iterated; `Message.fromJson` reads the object in any order of its fields, or an
array of them.
-/

set_option autoImplicit false

namespace DurableBus

open Json (Reader Value Problem)

/-! ## Writing -/

/-- Metadata as an object whose fields come in the order of `entries`. -/
def Metadata.writeEntries (entries : List (String × String)) : List Char :=
  Json.enclose '\x7b' '\x7d' (entries.map fun e => Json.writeField e.1 (Json.writeText e.2))

def Metadata.toJson (m : Metadata) : Value :=
  .ofFields (m.entries.map fun e => (e.1, .text e.2))

def writeBytes (bytes : Bytes) : List Char :=
  Json.enclose '[' ']' (bytes.map fun b => Numeral.digits b.toNat)

def bytesToJson (bytes : Bytes) : Value :=
  .array (bytes.map fun b => .int b.toNat)

/-- A message as an object, its metadata in the order of `entries`. -/
def Message.writeJson (m : Message) (entries : List (String × String)) : List Char :=
  Json.enclose '\x7b' '\x7d' [
    Json.writeField "uuid" (Json.writeText m.id.text),
    Json.writeField "metadata" (Metadata.writeEntries entries),
    Json.writeField "payload" (writeBytes m.payload)]

def Message.toJson (m : Message) : Value :=
  .ofFields [("uuid", .text m.id.text), ("metadata", m.metadata.toJson), ("payload", bytesToJson m.payload)]

/-! ## Reading -/

def Uuid.fromJson : Reader Uuid := fun input => do
  let (s, rest) ← Json.text input
  match Uuid.parse? s.toList with
  | some id => return (id, rest)
  | none => throw .mismatched

/-- Reads an object of strings; of two fields with one key the later wins. -/
def Metadata.fromJson : Reader Metadata :=
  Json.object .empty fun m key input => do
    let (value, rest) ← Json.valueOf Json.text input
    return (m.put key value, rest)

/-- Reads an array of numbers below 256. -/
def bytesFromJson : Reader Bytes := fun input => do
  let (ns, rest) ← Json.array (Json.integer 0 255) input
  return (ns.map fun n => n.toNat.toUInt8, rest)

/-- The fields of a message that have been read. -/
structure Message.Fields where
  id : Option Uuid := none
  metadata : Option Metadata := none
  payload : Option Bytes := none

def Message.field (held : Message.Fields) (key : String) : Reader Message.Fields :=
  if key = "uuid" then Json.once held.id Uuid.fromJson fun id => { held with id := some id }
  else if key = "metadata" then Json.once held.metadata Metadata.fromJson fun m => { held with metadata := some m }
  else if key = "payload" then Json.once held.payload bytesFromJson fun p => { held with payload := some p }
  else Json.unknownField held

/-- Reads a message from an object that has each field once. -/
def Message.fromObject : Reader Message := fun input => do
  let (held, rest) ← Json.object {} Message.field input
  match held with
  | ⟨some id, some metadata, some payload⟩ => return (⟨id, metadata, payload⟩, rest)
  | _ => throw .mismatched

/-- Reads the fields of a message in order, behind the opening bracket of an array. -/
def Message.fromArray : Reader Message := fun input => do
  let (id, rest) ← Json.place true Uuid.fromJson input
  let (metadata, rest) ← Json.place false Metadata.fromJson rest
  let (payload, rest) ← Json.place false bytesFromJson rest
  return (⟨id, metadata, payload⟩, rest)

def Message.fromJson : Reader Message := Json.record Message.fromArray Message.fromObject

end DurableBus
