import DurableBus.Json.Value
import DurableBus.Text.Utf8

/-!
# Reading JSON

A `Reader` takes a value of one shape from the front of its input. It never looks further than it must, so the first
problem met from left to right decides how reading fails:

* `truncated`: the input ended inside a value;
* `malformed`: the input is not JSON, or is nested too deeply, or holds a number out of range;
* `mismatched`: a value that is JSON is not of the shape asked for.

Strings are checked to be UTF-8 where they end. A value that nobody asked for (`skipValue`) is only checked to be
bracketed and spelled like JSON.
-/

set_option autoImplicit false

namespace DurableBus.Json

/-- How reading fails. -/
inductive Problem
  | truncated
  | malformed
  | mismatched
deriving DecidableEq, Repr

/-- Takes a value from the front of the input and leaves the rest. -/
abbrev Reader (α : Type) := Bytes → Except Problem (α × Bytes)

/-! ## Tokens -/

/-- The bytes that may stand between tokens. -/
def isSpace (b : UInt8) : Bool := b == 0x20 || b == 0x0A || b == 0x09 || b == 0x0D

/-- The input from its next token on. -/
def skipSpace (input : Bytes) : Bytes := input.dropWhile isSpace

def isDigit (b : UInt8) : Bool := 0x30 ≤ b && b ≤ 0x39

def digitValue (b : UInt8) : Nat := b.toNat - 0x30

/-- Takes the letters of a literal whose first letter has been seen. -/
def expectLetters : Bytes → Bytes → Except Problem Bytes
  | [], input => .ok input
  | _ :: _, [] => .error .truncated
  | letter :: letters, b :: input => if b = letter then expectLetters letters input else .error .malformed

/-- What follows the first letter of a literal, if there is a literal with that letter. -/
def literalTail? (b : UInt8) : Option Bytes :=
  if b = 0x6E then some (Utf8.encode "ull")
  else if b = 0x74 then some (Utf8.encode "rue")
  else if b = 0x66 then some (Utf8.encode "alse")
  else none

/-- Takes the colon between a key and its value. -/
def expectColon (input : Bytes) : Except Problem Bytes :=
  match skipSpace input with
  | [] => .error .truncated
  | b :: rest => if b = 0x3A then .ok rest else .error .malformed

/-! ## Numbers -/

/-- Adds digits to a significand while it stays below `2 ^ 64`; the rest begins with the first digit left over or
with what is no digit. -/
def addDigits : Nat → Nat → Bytes → Nat × Nat × Bytes
  | significand, used, [] => (significand, used, [])
  | significand, used, b :: rest =>
    if isDigit b ∧ 10 * significand + digitValue b < 0x1_0000_0000_0000_0000 then
      addDigits (10 * significand + digitValue b) (used + 1) rest
    else (significand, used, b :: rest)

/-- A double from its parts, or the problem that it is out of range. -/
def makeDouble (positive : Bool) (significand : Nat) (exponent : Int) (rest : Bytes) :
    Except Problem (Number × Bytes) :=
  match Double.ofParts? positive significand exponent with
  | some d => .ok (.double d, rest)
  | none => .error .malformed

/-- Reads the digits of an exponent, which may not exceed `2 ^ 31 - 1`; `none` if they do. -/
def exponentDigits : Nat → Bytes → Option Nat × Bytes
  | n, [] => (some n, [])
  | n, b :: rest =>
    if isDigit b then
      if 10 * n + digitValue b < 0x8000_0000 then exponentDigits (10 * n + digitValue b) rest
      else (none, rest)
    else (some n, b :: rest)

/-- Reads what follows the letter of an exponent. -/
def readExponent (positive : Bool) (significand : Nat) (start : Int) (input : Bytes) :
    Except Problem (Number × Bytes) :=
  let (up, input) := match input with
    | 0x2B :: rest => (true, rest)
    | 0x2D :: rest => (false, rest)
    | rest => (true, rest)
  match input with
  | [] => .error .truncated
  | b :: rest =>
    if isDigit b then
      match exponentDigits (digitValue b) rest with
      | (some n, rest) => makeDouble positive significand (if up then start + n else start - n) rest
      | (none, rest) =>
        if significand ≠ 0 ∧ up then .error .malformed
        else makeDouble positive 0 0 (rest.dropWhile isDigit)
    else .error .malformed

def isExponentMark (b : UInt8) : Bool := b == 0x65 || b == 0x45

def readFraction (positive : Bool) (significand : Nat) (start : Int) (input : Bytes) :
    Except Problem (Number × Bytes) :=
  match input with
  | [] => .error .truncated
  | b :: _ =>
    if isDigit b then
      let (significand, used, rest) := addDigits significand 0 input
      let rest := rest.dropWhile isDigit
      match rest with
      | mark :: tail =>
        if isExponentMark mark then readExponent positive significand (start - used) tail
        else makeDouble positive significand (start - used) rest
      | [] => makeDouble positive significand (start - used) rest
    else .error .malformed

/-- Reads what follows the whole part, of which `dropped` digits did not fit the significand. -/
def readNumberTail (positive : Bool) (significand dropped : Nat) (input : Bytes) :
    Except Problem (Number × Bytes) :=
  let plain := fun (_ : Unit) =>
    if dropped ≠ 0 then makeDouble positive significand dropped input
    else if positive then .ok (.integer significand, input)
    else if significand = 0 ∨ 0x8000_0000_0000_0000 < significand then makeDouble false significand 0 input
    else .ok (.integer (-(significand : Int)), input)
  match input with
  | b :: rest =>
    if b = 0x2E then readFraction positive significand dropped rest
    else if isExponentMark b then readExponent positive significand dropped rest
    else plain ()
  | [] => plain ()

/-- Reads a number behind its sign. -/
def readNumber (positive : Bool) (input : Bytes) : Except Problem (Number × Bytes) :=
  match input with
  | [] => .error .truncated
  | b :: rest =>
    if b = 0x30 then
      match rest with
      | next :: _ => if isDigit next then .error .malformed else readNumberTail positive 0 0 rest
      | [] => readNumberTail positive 0 0 rest
    else if isDigit b then
      let (significand, _, rest) := addDigits 0 0 input
      let dropped := rest.takeWhile isDigit
      readNumberTail positive significand dropped.length (rest.dropWhile isDigit)
    else .error .malformed

def skipExponent (input : Bytes) : Except Problem Bytes :=
  let input := match input with
    | 0x2B :: rest => rest
    | 0x2D :: rest => rest
    | rest => rest
  match input with
  | b :: rest => if isDigit b then .ok (rest.dropWhile isDigit) else .error .malformed
  | [] => .error .malformed

def skipNumberTail (input : Bytes) : Except Problem Bytes :=
  match input with
  | [] => .ok []
  | b :: rest =>
    if b = 0x2E then
      match rest with
      | d :: _ =>
        if isDigit d then
          match rest.dropWhile isDigit with
          | mark :: tail => if isExponentMark mark then skipExponent tail else .ok (mark :: tail)
          | [] => .ok []
        else .error .malformed
      | [] => .error .malformed
    else if isExponentMark b then skipExponent rest
    else .ok (b :: rest)

/-- Skips a number behind its sign, whatever its magnitude. -/
def skipNumber (input : Bytes) : Except Problem Bytes :=
  match input with
  | [] => .error .malformed
  | b :: rest =>
    if b = 0x30 then
      match rest with
      | next :: _ => if isDigit next then .error .malformed else skipNumberTail rest
      | [] => .ok []
    else if isDigit b then skipNumberTail (rest.dropWhile isDigit)
    else .error .malformed

/-! ## Strings -/

/-- The byte that a one-letter escape stands for. -/
def plainEscape? (b : UInt8) : Option UInt8 :=
  if b = 0x22 ∨ b = 0x5C ∨ b = 0x2F then some b
  else if b = 0x62 then some 0x08
  else if b = 0x66 then some 0x0C
  else if b = 0x6E then some 0x0A
  else if b = 0x72 then some 0x0D
  else if b = 0x74 then some 0x09
  else none

def hexFour? (a b c d : UInt8) : Option Nat :=
  Hex.number? [Char.ofNat a.toNat, Char.ofNat b.toNat, Char.ofNat c.toNat, Char.ofNat d.toNat]

/-- What is wrong with the input behind the first half of a surrogate pair, which is no second half. -/
def brokenPair : Bytes → Problem
  | [] => .truncated
  | b :: rest =>
    if b ≠ 0x5C then .malformed
    else match rest with
      | [] => .truncated
      | u :: rest => if u ≠ 0x75 then .malformed else if rest.length < 4 then .truncated else .malformed

def prepend (bytes : Bytes) (result : Except Problem (Bytes × Bytes)) : Except Problem (Bytes × Bytes) :=
  match result with
  | .ok (more, rest) => .ok (bytes ++ more, rest)
  | .error p => .error p

/-- Reads the bytes of a string behind its opening quote, with escapes replaced by what they stand for. -/
def stringBytes : Bytes → Except Problem (Bytes × Bytes)
  | [] => .error .truncated
  | b :: rest =>
    if b = 0x22 then .ok ([], rest)
    else if b < 0x20 then .error .malformed
    else if b ≠ 0x5C then prepend [b] (stringBytes rest)
    else match rest with
      | [] => .error .truncated
      | e :: rest =>
        match plainEscape? e with
        | some c => prepend [c] (stringBytes rest)
        | none =>
          if e ≠ 0x75 then .error .malformed
          else match rest with
            | a :: b :: c :: d :: rest =>
              match hexFour? a b c d with
              | none => .error .malformed
              | some n =>
                if n < 0xD800 ∨ 0xDFFF < n then prepend (Utf8.encodeChar (Char.ofNat n)) (stringBytes rest)
                else if 0xDC00 ≤ n then .error .malformed
                else match rest with
                  | 0x5C :: 0x75 :: a :: b :: c :: d :: rest =>
                    match hexFour? a b c d with
                    | none => .error .malformed
                    | some m =>
                      if 0xDC00 ≤ m ∧ m ≤ 0xDFFF then
                        prepend (Utf8.encodeChar (Char.ofNat ((n - 0xD800) * 1024 + (m - 0xDC00) + 0x10000)))
                          (stringBytes rest)
                      else .error .malformed
                  | rest => .error (brokenPair rest)
            | _ => .error .truncated

/-- Reads a string behind its opening quote. -/
def readString (input : Bytes) : Except Problem (String × Bytes) := do
  let (bytes, rest) ← stringBytes input
  match Utf8.decode? bytes with
  | some s => return (s, rest)
  | none => throw .malformed

/-- Skips a string behind its opening quote. -/
def skipString : Bytes → Except Problem Bytes
  | [] => .error .truncated
  | b :: rest =>
    if b = 0x22 then .ok rest
    else if b < 0x20 then .error .malformed
    else if b ≠ 0x5C then skipString rest
    else match rest with
      | [] => .error .truncated
      | e :: rest =>
        if (plainEscape? e).isSome then skipString rest
        else if e ≠ 0x75 then .error .malformed
        else match rest with
          | a :: b :: c :: d :: rest => if (hexFour? a b c d).isSome then skipString rest else .error .malformed
          | _ => .error .truncated

/-! ## Values that nobody asked for -/

/-- A bracket that is open. -/
inductive Frame
  | array
  | object
deriving DecidableEq, Repr

/-- Where `skipFrom` stands: before a value, or behind a value or an opening bracket. -/
inductive Position
  | before
  | behind (afterValue : Bool)

/-- Skips the key of a field and its colon. -/
def skipKey (input : Bytes) : Except Problem Bytes :=
  match skipSpace input with
  | [] => .error .truncated
  | b :: rest => if b = 0x22 then do expectColon (← skipString rest) else .error .malformed

/-- Skips until all open brackets are closed. Every round takes a token or leaves, so twice the length of the input
is enough fuel. -/
def skipFrom : Nat → Position → List Frame → Bytes → Except Problem Bytes
  | 0, _, _, _ => .error .truncated
  | fuel + 1, .before, frames, input =>
    match skipSpace input with
    | [] => .error .truncated
    | b :: rest =>
      match literalTail? b with
      | some letters => do skipFrom fuel (.behind true) frames (← expectLetters letters rest)
      | none =>
        if b = 0x2D then do skipFrom fuel (.behind true) frames (← skipNumber rest)
        else if isDigit b then do skipFrom fuel (.behind true) frames (← skipNumber (b :: rest))
        else if b = 0x22 then do skipFrom fuel (.behind true) frames (← skipString rest)
        else if b = 0x5B then skipFrom fuel (.behind false) (.array :: frames) rest
        else if b = 0x7B then skipFrom fuel (.behind false) (.object :: frames) rest
        else .error .malformed
  | _ + 1, .behind _, [], input => .ok input
  | fuel + 1, .behind afterValue, frame :: frames, input =>
    match skipSpace input with
    | [] => .error .truncated
    | b :: rest =>
      if b = (match frame with | .array => 0x5D | .object => 0x7D) then skipFrom fuel (.behind true) frames rest
      else if afterValue ∧ b ≠ 0x2C then .error .malformed
      else
        let next := if afterValue then rest else b :: rest
        match frame with
        | .array => skipFrom fuel .before (frame :: frames) next
        | .object => do skipFrom fuel .before (frame :: frames) (← skipKey next)

def skipValue (input : Bytes) : Except Problem Bytes :=
  skipFrom (2 * input.length + 2) .before [] input

/-! ## Shapes -/

/-- How reading fails at a value that is not of the shape asked for: a scalar is read to its end first. -/
def mismatch (b : UInt8) (rest : Bytes) : Problem :=
  let verdict := fun {α : Type} (r : Except Problem α) => match r with
    | .ok _ => .mismatched
    | .error p => p
  match literalTail? b with
  | some letters => verdict (expectLetters letters rest)
  | none =>
    if b = 0x2D then verdict (readNumber false rest)
    else if isDigit b then verdict (readNumber true (b :: rest))
    else if b = 0x22 then verdict (readString rest)
    else if b = 0x5B ∨ b = 0x7B then .mismatched
    else .malformed

def text : Reader String := fun input =>
  match skipSpace input with
  | [] => .error .truncated
  | b :: rest => if b = 0x22 then readString rest else .error (mismatch b rest)

def integer (least greatest : Int) : Reader Int := fun input => do
  let inRange := fun (n : Number × Bytes) => match n with
    | (.integer i, rest) => if least ≤ i ∧ i ≤ greatest then .ok (i, rest) else .error .mismatched
    | (.double _, _) => .error .mismatched
  match skipSpace input with
  | [] => throw .truncated
  | b :: rest =>
    if b = 0x2D then inRange (← readNumber false rest)
    else if isDigit b then inRange (← readNumber true (b :: rest))
    else throw (mismatch b rest)

def bool : Reader Bool := fun input =>
  match skipSpace input with
  | [] => .error .truncated
  | b :: rest =>
    if b = 0x74 then do return (true, ← expectLetters (Utf8.encode "rue") rest)
    else if b = 0x66 then do return (false, ← expectLetters (Utf8.encode "alse") rest)
    else .error (mismatch b rest)

/-- Reads `null` or what the reader takes. -/
def optional {α : Type} (item : Reader α) : Reader (Option α) := fun input =>
  match skipSpace input with
  | b :: rest =>
    if b = 0x6E then do return (none, ← expectLetters (Utf8.encode "ull") rest)
    else do
      let (a, rest) ← item input
      return (some a, rest)
  | [] => do
    let (a, rest) ← item input
    return (some a, rest)

/-- Reads items up to the closing bracket of an array, the first of them without a comma in front. -/
def items {α : Type} (item : Reader α) : Nat → Bool → Reader (List α)
  | 0, _, _ => .error .truncated
  | fuel + 1, first, input =>
    match skipSpace input with
    | [] => .error .truncated
    | b :: rest =>
      if b = 0x5D then .ok ([], rest)
      else do
        let next ←
          if first then pure (b :: rest)
          else if b = 0x2C then
            match skipSpace rest with
            | [] => throw .truncated
            | c :: tail => if c = 0x5D then throw .malformed else pure (c :: tail)
          else throw .malformed
        let (a, rest) ← item next
        let (more, rest) ← items item fuel false rest
        return (a :: more, rest)

def array {α : Type} (item : Reader α) : Reader (List α) := fun input =>
  match skipSpace input with
  | [] => .error .truncated
  | b :: rest => if b = 0x5B then items item (input.length + 1) true rest else .error (mismatch b rest)

/-- Reads fields up to the closing brace of an object. `field` is called behind each key and takes the colon and the
value. -/
def fields {σ : Type} (field : σ → String → Reader σ) : Nat → Bool → σ → Reader σ
  | 0, _, _, _ => .error .truncated
  | fuel + 1, first, state, input =>
    match skipSpace input with
    | [] => .error .truncated
    | b :: rest =>
      if b = 0x7D then .ok (state, rest)
      else do
        let next ←
          if first then pure (b :: rest)
          else if b = 0x2C then
            match skipSpace rest with
            | [] => throw .truncated
            | c :: tail => pure (c :: tail)
          else throw .malformed
        match next with
        | 0x22 :: rest => do
          let (key, rest) ← readString rest
          let (state, rest) ← field state key rest
          fields field fuel false state rest
        | _ => throw .malformed

def object {σ : Type} (start : σ) (field : σ → String → Reader σ) : Reader σ := fun input =>
  match skipSpace input with
  | [] => .error .truncated
  | b :: rest => if b = 0x7B then fields field (input.length + 1) true start rest else .error (mismatch b rest)

/-- Takes the colon and then a value. -/
def valueOf {α : Type} (item : Reader α) : Reader α := fun input => do
  item (← expectColon input)

/-- Takes the colon and skips the value. -/
def unknownField {σ : Type} (state : σ) : Reader σ := fun input => do
  return (state, ← skipValue (← expectColon input))

/-- Reads one of a fixed number of items of an array: it has to be there. -/
def place {α : Type} (first : Bool) (item : Reader α) : Reader α := fun input =>
  match skipSpace input with
  | [] => .error .truncated
  | b :: rest =>
    if b = 0x5D then .error .mismatched
    else if first then item (b :: rest)
    else if b = 0x2C then
      match skipSpace rest with
      | [] => .error .truncated
      | c :: tail => if c = 0x5D then .error .malformed else item (c :: tail)
    else .error .malformed

/-- Takes the closing bracket of an array that has no more items. -/
def closeArray (input : Bytes) : Except Problem Bytes :=
  match skipSpace input with
  | [] => .error .truncated
  | b :: rest => if b = 0x5D then .ok rest else .error .malformed

/-- Reads a record, from an object or from an array of its fields in order. -/
def record {α : Type} (fromArray fromObject : Reader α) : Reader α := fun input =>
  match skipSpace input with
  | [] => .error .truncated
  | b :: rest =>
    if b = 0x5B then do
      let (a, rest) ← fromArray rest
      return (a, ← closeArray rest)
    else if b = 0x7B then fromObject (b :: rest)
    else .error (mismatch b rest)

/-- A field that may be read once. -/
def once {α σ : Type} (held : Option α) (item : Reader α) (keep : α → σ) : Reader σ := fun input =>
  match held with
  | some _ => .error .mismatched
  | none => do
    let (a, rest) ← valueOf item input
    return (keep a, rest)

/-- A value of any shape, with up to `depth` arrays and objects inside one another. -/
def value : Nat → Reader Value
  | depth, input =>
    match skipSpace input with
    | [] => .error .truncated
    | b :: rest =>
      match literalTail? b with
      | some letters => do
        let rest ← expectLetters letters rest
        return (if b = 0x6E then .null else .bool (b = 0x74), rest)
      | none =>
        if b = 0x2D then do
          let (n, rest) ← readNumber false rest
          return (.number n, rest)
        else if isDigit b then do
          let (n, rest) ← readNumber true (b :: rest)
          return (.number n, rest)
        else if b = 0x22 then do
          let (s, rest) ← readString rest
          return (.text s, rest)
        else if b = 0x5B then
          match depth with
          | 0 => .error .malformed
          | depth + 1 => do
            let (vs, rest) ← array (value depth) (b :: rest)
            return (.array vs, rest)
        else if b = 0x7B then
          match depth with
          | 0 => .error .malformed
          | depth + 1 => do
            let (fs, rest) ← object [] (fun fs key input => do
              let (v, rest) ← valueOf (value depth) input
              return (Value.putField key v fs, rest)) (b :: rest)
            return (.object fs, rest)
        else .error .malformed

/-- How many arrays and objects may be inside one another. -/
def maxDepth : Nat := 127

/-- Reads a whole text: one value and nothing behind it. -/
def parse {α : Type} (reader : Reader α) (input : Bytes) : Except Problem α := do
  let (a, rest) ← reader input
  if (skipSpace rest).isEmpty then return a else throw .malformed

end DurableBus.Json
