import DurableBus.Json.Reader

/-!
# Items

The record that scenarios publish as JSON: a number below `2 ^ 64` and a name.
-/

set_option autoImplicit false

namespace DurableBus

open Json (Reader Value)

/-- A numbered name. -/
structure Item where
  id : Nat
  name : String
deriving DecidableEq, Repr

namespace Item

def write (item : Item) : List Char :=
  Json.enclose '\x7b' '\x7d' [
    Json.writeField "id" (Numeral.digits item.id), Json.writeField "name" (Json.writeText item.name)]

def toJson (item : Item) : Value :=
  .ofFields [("id", .int item.id), ("name", .text item.name)]

def readId : Reader Nat := fun input => do
  let (i, rest) ← Json.integer 0 0xFFFF_FFFF_FFFF_FFFF input
  return (i.toNat, rest)

def field (held : Option Nat × Option String) (key : String) : Reader (Option Nat × Option String) :=
  if key = "id" then Json.once held.1 readId fun i => (some i, held.2)
  else if key = "name" then Json.once held.2 Json.text fun s => (held.1, some s)
  else Json.unknownField held

def fromObject : Reader Item := fun input => do
  let (held, rest) ← Json.object (none, none) field input
  match held with
  | (some id, some name) => return (⟨id, name⟩, rest)
  | _ => throw .mismatched

/-- Reads the fields of an item in order, behind the opening bracket of an array. -/
def fromArray : Reader Item := fun input => do
  let (id, rest) ← Json.place true readId input
  let (name, rest) ← Json.place false Json.text rest
  return (⟨id, name⟩, rest)

def fromJson : Reader Item := Json.record fromArray fromObject

end Item

end DurableBus
