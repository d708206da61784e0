import DurableBus.Metadata
import DurableBus.Text.Utf8
import DurableBus.Uuid

/-!
# Messages

A message is an identifier, metadata and a payload of bytes. The topic is no part of it: it is named when the message
is published and travels with the delivery.
-/

set_option autoImplicit false

namespace DurableBus

/-- What is published on a topic and handed to subscribers. -/
structure Message where
  id : Uuid
  metadata : Metadata
  payload : Bytes
deriving DecidableEq, Repr

namespace Message

def new (id : Uuid) (payload : Bytes) : Message := ⟨id, .empty, payload⟩

/-- The message with a metadata entry, over any earlier one with that key. -/
def withMetadata (m : Message) (key value : String) : Message :=
  { m with metadata := m.metadata.put key value }

/-- A message whose payload is JSON text, and says so. -/
def ofJson (id : Uuid) (text : Bytes) : Message :=
  (new id text).withMetadata "content-type" "application/json"

end Message

end DurableBus
