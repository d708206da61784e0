import DurableBus.Metadata
import DurableBus.Text.Blank
import DurableBus.Trace.Context

/-!
# Trace context in metadata

A propagator writes a trace context into the metadata of a message when it is published and reads it back before the
message is handled. `Propagator.w3c` uses the entries `traceparent` and `tracestate`; `Propagator.tag` puts both
identifiers into one entry `ctx`; `Propagator.silent` does nothing. A `Propagation` names one or leaves the choice to
whatever is registered for the whole process.
-/

set_option autoImplicit false

namespace DurableBus

/-- A format of trace context in metadata. -/
inductive Propagator
  | silent
  | w3c
  | tag
deriving DecidableEq, Repr

namespace Propagator

def traceParent (c : SpanContext) : List Char :=
  ['0', '0', '-'] ++ c.traceText ++ '-' :: c.spanText ++ '-' :: '0' :: [if c.sampled then '1' else '0']

def traceBound : Nat := 0x1_0000_0000_0000_0000_0000_0000_0000_0000

def spanBound : Nat := 0x1_0000_0000_0000_0000

/-- Reads the parts of a `traceparent` entry: version, trace, span, flags. A version later than the first may have
more parts and flags. -/
def readParts? (parts : List (List Char)) (state : TraceState) : Option SpanContext := do
  match parts with
  | version :: trace :: span :: flags :: more =>
    let version ← Hex.below? 256 version
    if version = 255 ∨ (version = 0 ∧ more ≠ []) then none
    if trace.any Char.isUpper || span.any Char.isUpper then none
    let traceId ← Hex.below? traceBound trace
    let spanId ← Hex.below? spanBound span
    let flags ← Hex.below? 256 flags
    if version = 0 ∧ 2 < flags then none
    return ⟨BitVec.ofNat 128 traceId, BitVec.ofNat 64 spanId, flags % 2 = 1, true, state⟩
  | _ => none

/-- Reads the two entries; a trace state that does not parse is an empty one. -/
def readTraceParent? (m : Metadata) : Option SpanContext :=
  let header := trimBlanks ((m.get? "traceparent").getD "").toList
  let state := ((m.get? "tracestate").bind fun s => TraceState.parse? s.toList).getD .empty
  (readParts? (splitTerminated '-' header) state).filter SpanContext.isValid

/-- The `ctx` entry of a context, zeros if there is none. -/
def contextTag (cx : TraceContext) : List Char :=
  match cx with
  | some c => c.traceText ++ '/' :: c.spanText
  | none => Hex.fixed 32 0 ++ '/' :: Hex.fixed 16 0

def readTag? (m : Metadata) : Option SpanContext := do
  let tag := (← m.get? "ctx").toList
  match tag.dropWhile (· != '/') with
  | _ :: span =>
    let traceId ← Hex.below? traceBound (tag.takeWhile (· != '/'))
    let spanId ← Hex.below? spanBound span
    return ⟨BitVec.ofNat 128 traceId, BitVec.ofNat 64 spanId, false, true, .empty⟩
  | [] => none

def inject (p : Propagator) (cx : TraceContext) (m : Metadata) : Metadata :=
  match p with
  | silent => m
  | w3c =>
    match cx.valid? with
    | some c =>
      (m.put "traceparent" (String.ofList (traceParent c))).put "tracestate" (String.ofList c.state.header)
    | none => m
  | tag => m.put "ctx" (String.ofList (contextTag cx))

def extract (p : Propagator) (m : Metadata) : TraceContext :=
  match p with
  | silent => none
  | w3c => readTraceParent? m
  | tag => readTag? m

end Propagator

/-- The propagator of a bus: its own, or the one of the process. -/
structure Propagation where
  own : Option Propagator
deriving DecidableEq, Repr

namespace Propagation

/-- The one of the process. -/
def global : Propagation := ⟨none⟩

/-- The propagator in use when `registered` is the one of the process. -/
def resolve (p : Propagation) (registered : Propagator) : Propagator := p.own.getD registered

/-- The text that shows where the propagator comes from. -/
def text (p : Propagation) : String :=
  "Propagation \x7b global: " ++ (if p.own.isNone then "true" else "false") ++ " \x7d"

end Propagation

end DurableBus
