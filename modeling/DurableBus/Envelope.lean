import DurableBus.Json.Message

/-!
# Outbox envelopes

In outbox mode a message is stored on a reserved topic inside an envelope that names the topic it is meant for. The
envelope travels as the JSON payload of a message of its own.
-/

set_option autoImplicit false

namespace DurableBus

open Json (Reader Value Problem)

/-- A message and the topic it is meant for. -/
structure Envelope where
  destination : String
  message : Message
deriving DecidableEq, Repr

namespace Envelope

/-- The envelope as an object, the metadata of its message in the order of `entries`. -/
def writeJson (e : Envelope) (entries : List (String × String)) : List Char :=
  Json.enclose '\x7b' '\x7d' [
    Json.writeField "destination_topic" (Json.writeText e.destination),
    Json.writeField "message" (e.message.writeJson entries)]

def toJson (e : Envelope) : Value :=
  .ofFields [("destination_topic", .text e.destination), ("message", e.message.toJson)]

/-- The message with identifier `id` that carries the envelope, encoded with the metadata in the order of
`entries`. -/
def wrapInOrder (e : Envelope) (id : Uuid) (entries : List (String × String)) : Message :=
  .ofJson id ((e.writeJson entries).flatMap Utf8.encodeChar)

def wrap (e : Envelope) (id : Uuid) : Message :=
  e.wrapInOrder id e.message.metadata.entries

/-- The fields of an envelope that have been read. -/
structure Fields where
  destination : Option String := none
  message : Option Message := none

def field (held : Fields) (key : String) : Reader Fields :=
  if key = "destination_topic" then Json.once held.destination Json.text fun t => { held with destination := some t }
  else if key = "message" then Json.once held.message Message.fromJson fun m => { held with message := some m }
  else Json.unknownField held

/-- Reads an envelope from an object that has each field once. -/
def fromObject : Reader Envelope := fun input => do
  let (held, rest) ← Json.object {} field input
  match held with
  | ⟨some destination, some message⟩ => return (⟨destination, message⟩, rest)
  | _ => throw .mismatched

/-- Reads the fields of an envelope in order, behind the opening bracket of an array. -/
def fromArray : Reader Envelope := fun input => do
  let (destination, rest) ← Json.place true Json.text input
  let (message, rest) ← Json.place false Message.fromJson rest
  return (⟨destination, message⟩, rest)

def fromJson : Reader Envelope := Json.record fromArray fromObject

def unwrap (m : Message) : Except Problem Envelope :=
  Json.parse fromJson m.payload

end Envelope

end DurableBus
