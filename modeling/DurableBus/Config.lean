import DurableBus.Retry.Policy

/-!
# Configuration

`Config` holds every setting of a bus and has a default for each. The `with` functions change one of them.
-/

set_option autoImplicit false

namespace DurableBus

/-- The settings of a bus. -/
structure Config where
  /-- Where the relational store is. -/
  databaseUrl : String
  maxConnections : Nat
  /-- The group of a subscription that names none; without one it is a broadcast. -/
  consumerGroup : Option String
  /-- Whether publishing goes through the outbox. -/
  forwarderEnabled : Bool
  /-- The reserved topic that holds envelopes. -/
  forwarderTopic : String
  forwarderGroup : String
  /-- The wait between polls of a topic that has nothing to claim. -/
  pollInterval : Duration
  /-- How many messages one poll claims at most. -/
  batchSize : Nat
  /-- How long a claim is exclusive. -/
  claimLease : Duration
  /-- How long a released message stays invisible. -/
  redeliveryDelay : Duration
  retry : RetryPolicy
  /-- How long shutdown waits for tasks to finish. -/
  shutdownTimeout : Duration
  errorChannelCapacity : Nat
deriving Repr

namespace Config

/-- The group of a service's own consumers. -/
def groupOf (service : String) : String := service ++ "-consumer"

/-- The settings of a bus that changes none. -/
def standard : Config where
  databaseUrl := "postgres://localhost:5432/letterbox"
  maxConnections := 10
  consumerGroup := some (groupOf "letterbox")
  forwarderEnabled := false
  forwarderTopic := "_forwarder_queue"
  forwarderGroup := "forwarder-consumer"
  pollInterval := .ofSecs 1
  batchSize := 10
  claimLease := .ofSecs 30
  redeliveryDelay := .ofSecs 1
  retry := .standard
  shutdownTimeout := .ofSecs 30
  errorChannelCapacity := 100

instance : Inhabited Config := ⟨standard⟩

def withDatabaseUrl (c : Config) (url : String) : Config := { c with databaseUrl := url }

def withConsumerGroup (c : Config) (group : String) : Config := { c with consumerGroup := some group }

/-- Subscriptions that name no group are broadcasts. -/
def withBroadcast (c : Config) : Config := { c with consumerGroup := none }

def withForwarder (c : Config) : Config := { c with forwarderEnabled := true }

def withForwarderTopic (c : Config) (topic : String) : Config := { c with forwarderTopic := topic }

def withPollInterval (c : Config) (d : Duration) : Config := { c with pollInterval := d }

/-- Another batch size; zero counts as one. -/
def withBatchSize (c : Config) (n : Nat) : Config := { c with batchSize := max n 1 }

def withClaimLease (c : Config) (d : Duration) : Config := { c with claimLease := d }

def withRedeliveryDelay (c : Config) (d : Duration) : Config := { c with redeliveryDelay := d }

def withRetry (c : Config) (p : RetryPolicy) : Config := { c with retry := p }

def withShutdownTimeout (c : Config) (d : Duration) : Config := { c with shutdownTimeout := d }

/-- Another capacity of error channels; zero counts as one. -/
def withErrorChannelCapacity (c : Config) (n : Nat) : Config := { c with errorChannelCapacity := max n 1 }

end Config

end DurableBus
