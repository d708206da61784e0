import DurableBus.Text.Hex
import DurableBus.Text.Utf8

/-!
# Trace contexts

A span context names a span of a distributed trace. It is valid if neither of its identifiers is zero. `TraceState`
holds entries of tracing vendors; its header form is read by `TraceState.parse?`.
-/

set_option autoImplicit false

namespace DurableBus

/-- Splits at every separator; there is one piece more than separators. -/
def splitAtEach (separator : Char) : List Char → List (List Char)
  | [] => [[]]
  | c :: cs =>
    if c = separator then [] :: splitAtEach separator cs
    else match splitAtEach separator cs with
      | piece :: pieces => (c :: piece) :: pieces
      | [] => [[c]]

/-- Splits at every separator, where a separator at the end has no piece behind it. -/
def splitTerminated (separator : Char) (cs : List Char) : List (List Char) :=
  let pieces := splitAtEach separator cs
  if pieces.getLast? = some [] then pieces.dropLast else pieces

/-- Entries of tracing vendors, in order. -/
structure TraceState where
  entries : List (List Char × List Char)
deriving DecidableEq, Repr

namespace TraceState

def empty : TraceState := ⟨[]⟩

instance : Inhabited TraceState := ⟨empty⟩

/-- Whether a character may stand in a key at all. -/
def isKeyChar (c : Char) : Bool :=
  ('a' ≤ c && c ≤ 'z') || ('0' ≤ c && c ≤ '9') || c == '_' || c == '-' || c == '*' || c == '/' || c == '@'

/-- Whether a character may begin a key, or a vendor's part of one. -/
def isKeyStart (c : Char) : Bool := ('a' ≤ c && c ≤ 'z') || ('0' ≤ c && c ≤ '9')

/-- Whether a text may be a key: at most 256 characters of the key alphabet, a letter or digit first, and at most one
`@`, with at most thirteen characters behind it that begin with a letter or digit. -/
def isKey (key : List Char) : Bool :=
  key.length ≤ 256 && key.all isKeyChar && (key.head?.map isKeyStart).getD true &&
    match splitAtEach '@' key with
    | [_] => true
    | [_, vendor] => vendor.length ≤ 13 && (vendor.head?.map isKeyStart).getD true
    | _ => false

/-- Whether a text may be a value: at most 256 bytes without a comma or an equals sign. -/
def isValue (value : List Char) : Bool :=
  (value.flatMap Utf8.encodeChar).length ≤ 256 && value.all fun c => c != ',' && c != '='

/-- One entry of a header: the key before the first equals sign, the value behind all that follow it directly. -/
def parseEntry? (member : List Char) : Option (List Char × List Char) :=
  let key := member.takeWhile (· != '=')
  match member.dropWhile (· != '=') with
  | [] => none
  | _ :: rest =>
    let value := rest.dropWhile (· == '=')
    if isKey key && isValue value then some (key, value) else none

/-- Reads a header; a comma may end it. -/
def parse? (header : List Char) : Option TraceState :=
  ((splitTerminated ',' header).mapM parseEntry?).map TraceState.mk

def header (s : TraceState) : List Char :=
  ((s.entries.map fun e => e.1 ++ '=' :: e.2).intersperse [',']).flatten

end TraceState

/-- The identity of a span. -/
structure SpanContext where
  traceId : BitVec 128
  spanId : BitVec 64
  sampled : Bool
  /-- Whether the span is that of another process. -/
  remote : Bool
  state : TraceState
deriving DecidableEq, Repr

namespace SpanContext

/-- Whether neither identifier is zero. -/
def isValid (c : SpanContext) : Bool := c.traceId != 0 && c.spanId != 0

def traceText (c : SpanContext) : List Char := Hex.fixed 32 c.traceId.toNat

def spanText (c : SpanContext) : List Char := Hex.fixed 16 c.spanId.toNat

end SpanContext

/-- The trace context of an operation, if it has one. -/
abbrev TraceContext := Option SpanContext

/-- The span context inside, unless it is invalid. -/
def TraceContext.valid? (cx : TraceContext) : Option SpanContext :=
  cx.filter SpanContext.isValid

end DurableBus
