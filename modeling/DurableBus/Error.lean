import DurableBus.Json.Reader
import DurableBus.Retry.Loop
import DurableBus.Store.Basic

/-!
# Errors of the bus

`BusError` says why a bus operation fails, `Failure` why an attempt to handle or to forward a message does. The text of
a bus error ends its line.
-/

set_option autoImplicit false

namespace DurableBus

/-- Why a bus operation fails; `ε` is what the store has to say. -/
inductive BusError (ε : Type)
  /-- The bus does not use an outbox. -/
  | notConfiguredForForwarding
  | forwarderAlreadyStarted
  /-- The topic is kept for envelopes. -/
  | reservedTopic (topic : String)
  /-- The publisher or the bus has been shut down. -/
  | closed
  /-- The caller's token fired while the operation waited. -/
  | cancelled (operation : String)
  /-- The store refused. -/
  | store (operation : String) (topic : Option String) (source : ε)
deriving DecidableEq, Repr

namespace BusError

variable {ε : Type}

/-- The text of the error, given that of what the store says. -/
def message (sourceText : ε → String) : BusError ε → String
  | notConfiguredForForwarding => "Bus is not configured for forwarding\n"
  | forwarderAlreadyStarted => "Forwarder already started\n"
  | reservedTopic topic => "Topic " ++ topic ++ " is reserved for outbox envelopes\n"
  | closed => "Bus is closed\n"
  | cancelled operation => operation ++ ": cancelled\n"
  | store operation (some topic) source =>
    operation ++ " on " ++ topic ++ ": store error: " ++ sourceText source ++ "\n"
  | store operation none source => operation ++ ": store error: " ++ sourceText source ++ "\n"

/-- Whether the operation will fail again if it is repeated unchanged. -/
def isConfiguration : BusError ε → Bool
  | notConfiguredForForwarding | forwarderAlreadyStarted | reservedTopic _ => true
  | _ => false

def source? : BusError ε → Option ε
  | store _ _ source => some source
  | _ => none

/-- The operation that failed, where the error names one. -/
def operation? : BusError ε → Option String
  | cancelled operation => some operation
  | store operation _ _ => some operation
  | _ => none

def topic? : BusError ε → Option String
  | reservedTopic topic => some topic
  | store _ topic _ => topic
  | _ => none

end BusError

/-- Why an attempt fails. -/
inductive Failure
  /-- The handler says so. -/
  | told (text : String)
  /-- The payload is not the JSON that the handler expects. -/
  | undecodable (problem : Json.Problem)
  /-- The handler took too long. -/
  | timedOut
  /-- The message could not be forwarded. -/
  | bus (error : BusError Store.Error)
deriving DecidableEq, Repr

namespace Failure

def text : Failure → String
  | told text => text
  | undecodable .truncated => "JSON ends too early"
  | undecodable .malformed => "not JSON"
  | undecodable .mismatched => "JSON of another shape"
  | timedOut => "request timed out"
  | bus error => error.message Store.Error.message

/-- What is wrong with the payload, if the payload is what is wrong. -/
def problem? : Failure → Option Json.Problem
  | undecodable problem => some problem
  | _ => none

end Failure

def RetryError.text (e : RetryError Failure) : String := e.message e.last.text

end DurableBus
