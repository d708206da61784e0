import DurableBus.Config
import DurableBus.Text.Blank
import DurableBus.Text.Quoted

/-!
# Configuration from the environment

`Config.load` looks its keys up one by one. A key that is not set keeps the default, and the first key whose value
does not parse is the error. Values are trimmed of blanks before they are parsed; the error shows them untrimmed.
-/

set_option autoImplicit false

namespace DurableBus

/-- Why a value is refused. -/
inductive ConfigError.Reason
  | numeral (fault : Numeral.Fault)
  | truthValue
deriving DecidableEq, Repr

def ConfigError.Reason.message : ConfigError.Reason → String
  | .numeral fault => fault.message
  | .truthValue => "provided string was not `true` or `false`"

/-- A key whose value does not parse. -/
structure ConfigError where
  key : String
  value : String
  reason : ConfigError.Reason
deriving DecidableEq, Repr

def ConfigError.message (e : ConfigError) : String :=
  "Invalid value " ++ quoted e.value ++ " for " ++ e.key ++ ": " ++ e.reason.message

namespace Config

def truthValue (cs : List Char) : Except ConfigError.Reason Bool :=
  if cs = ['t', 'r', 'u', 'e'] then .ok true
  else if cs = ['f', 'a', 'l', 's', 'e'] then .ok false
  else .error .truthValue

def bound32 : Nat := 0x1_0000_0000

def bound64 : Nat := 0x1_0000_0000_0000_0000

/-- Reads a numeral below a bound. -/
def numeral (bound : Nat) (cs : List Char) : Except ConfigError.Reason Nat :=
  (Numeral.parse bound cs).mapError .numeral

/-- The value of a key, if it is set. -/
def setting {α : Type} (lookup : String → Option String) (key : String)
    (read : List Char → Except ConfigError.Reason α) : Except ConfigError (Option α) :=
  match lookup key with
  | none => .ok none
  | some value =>
    match read (trimBlanks value.toList) with
    | .ok a => .ok (some a)
    | .error reason => .error ⟨key, value, reason⟩

/-- The configuration that the keys describe. -/
def load (lookup : String → Option String) : Except ConfigError Config := do
  let enabled ← setting lookup "LETTERBOX_FORWARDER" truthValue
  let connections ← setting lookup "LETTERBOX_MAX_CONNECTIONS" (numeral bound32)
  let poll ← setting lookup "LETTERBOX_POLL_INTERVAL_MS" (numeral bound64)
  let batch ← setting lookup "LETTERBOX_BATCH_SIZE" (numeral bound64)
  let lease ← setting lookup "LETTERBOX_CLAIM_LEASE_SECS" (numeral bound64)
  let redelivery ← setting lookup "LETTERBOX_REDELIVERY_DELAY_MS" (numeral bound64)
  let attempts ← setting lookup "LETTERBOX_MAX_ATTEMPTS" (numeral bound32)
  let base ← setting lookup "LETTERBOX_RETRY_BASE_DELAY_MS" (numeral bound64)
  let shutdown ← setting lookup "LETTERBOX_SHUTDOWN_TIMEOUT_SECS" (numeral bound64)
  let limited := (attempts.map standard.retry.withMaxAttempts).getD standard.retry
  return {
    databaseUrl := ((lookup "LETTERBOX_DATABASE_URL").or (lookup "DATABASE_URL")).getD standard.databaseUrl
    maxConnections := connections.getD standard.maxConnections
    consumerGroup := ((lookup "SERVICE_NAME").map groupOf).or standard.consumerGroup
    forwarderEnabled := enabled.getD standard.forwarderEnabled
    forwarderTopic := (lookup "LETTERBOX_FORWARDER_TOPIC").getD standard.forwarderTopic
    forwarderGroup := (lookup "LETTERBOX_FORWARDER_GROUP").getD standard.forwarderGroup
    pollInterval := (poll.map .ofMillis).getD standard.pollInterval
    batchSize := batch.getD standard.batchSize
    claimLease := (lease.map .ofSecs).getD standard.claimLease
    redeliveryDelay := (redelivery.map .ofMillis).getD standard.redeliveryDelay
    retry := (base.map fun ms => limited.withBaseDelay (.ofMillis ms)).getD limited
    shutdownTimeout := (shutdown.map .ofSecs).getD standard.shutdownTimeout
    errorChannelCapacity := standard.errorChannelCapacity }

end Config

end DurableBus
