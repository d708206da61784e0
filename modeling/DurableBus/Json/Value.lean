import DurableBus.Json.Double
import DurableBus.Text.Hex

/-!
# JSON values and their text

Objects keep their fields in ascending order of the keys, one field a key. `Value.write` is the compact text: nothing
between the tokens, and in strings only quotes, backslashes and control characters are escaped.
-/

set_option autoImplicit false

namespace DurableBus.Json

/-- A JSON number: an integer, or a double if it has a point or exponent or is out of the range of integers. -/
inductive Number
  | integer (i : Int)
  | double (d : Double)
deriving DecidableEq, Repr

/-- A JSON value. -/
inductive Value
  | null
  | bool (b : Bool)
  | number (n : Number)
  | text (s : String)
  | array (items : List Value)
  | object (fields : List (String × Value))

namespace Value

def int (i : Int) : Value := .number (.integer i)

/-- Writes a field into ascending fields, over an earlier one with that key. -/
def putField (key : String) (value : Value) : List (String × Value) → List (String × Value)
  | [] => [(key, value)]
  | f :: rest =>
    if key < f.1 then (key, value) :: f :: rest
    else if key = f.1 then (key, value) :: rest
    else f :: putField key value rest

/-- The object with these fields; of two with one key the later wins. -/
def ofFields (fields : List (String × Value)) : Value :=
  .object (fields.foldl (fun fs f => putField f.1 f.2 fs) [])

end Value

def escapeChar (c : Char) : List Char :=
  match c with
  | '"' => ['\\', '"']
  | '\\' => ['\\', '\\']
  | '\x08' => ['\\', 'b']
  | '\x0c' => ['\\', 'f']
  | '\n' => ['\\', 'n']
  | '\r' => ['\\', 'r']
  | '\t' => ['\\', 't']
  | c => if c.toNat < 0x20 then ['\\', 'u', '0', '0', Hex.digit (c.toNat / 16), Hex.digit (c.toNat % 16)] else [c]

def writeText (s : String) : List Char :=
  '"' :: s.toList.flatMap escapeChar ++ ['"']

/-- Pieces with commas between them, inside a pair of brackets. -/
def enclose (left right : Char) (pieces : List (List Char)) : List Char :=
  left :: (pieces.intersperse [',']).flatten ++ [right]

def writeField (key : String) (value : List Char) : List Char :=
  writeText key ++ ':' :: value

def writeInt (i : Int) : List Char :=
  if i < 0 then '-' :: Numeral.digits i.natAbs else Numeral.digits i.natAbs

def Number.write : Number → List Char
  | .integer i => writeInt i
  | .double d => d.text

mutual

/-- The compact text of a value. -/
def Value.write : Value → List Char
  | .null => ['n', 'u', 'l', 'l']
  | .bool true => ['t', 'r', 'u', 'e']
  | .bool false => ['f', 'a', 'l', 's', 'e']
  | .number n => n.write
  | .text s => writeText s
  | .array items => enclose '[' ']' (writeItems items)
  | .object fields => enclose '\x7b' '\x7d' (writeFields fields)

def writeItems : List Value → List (List Char)
  | [] => []
  | item :: rest => item.write :: writeItems rest

def writeFields : List (String × Value) → List (List Char)
  | [] => []
  | (key, value) :: rest => writeField key value.write :: writeFields rest

end

end DurableBus.Json
