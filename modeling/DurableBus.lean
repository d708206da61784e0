import DurableBus.Text.Utf8
import DurableBus.Text.Blank
import DurableBus.Text.Hex
import DurableBus.Text.Hidden
import DurableBus.Text.Quoted
import DurableBus.Text.Numeral
import DurableBus.Time
import DurableBus.Message
import DurableBus.Envelope
import DurableBus.Config.Environment
import DurableBus.Trace.Propagation
import DurableBus.Store.InMemory
import DurableBus.Store.Stream
import DurableBus.Hook
import DurableBus.Handler
import DurableBus.Publisher
import DurableBus.Postgres.Address
import DurableBus.Postgres.Pool
import DurableBus.Postgres.Store
import DurableBus.Consumer.Step
import DurableBus.System
import DurableBus.Scenario.Item
import DurableBus.Scenario.Attempts
import DurableBus.Scenario.Polling
import DurableBus.Scenario.Handling
import DurableBus.Scenario.Fault
import DurableBus.Scenario.World
import DurableBus.Scenario.Detached
import DurableBus.Scenario.Session
import DurableBus.Scenario.Database
import DurableBus.Proofs.Store.Ledger
import DurableBus.Proofs.Store.Log
import DurableBus.Proofs.Store.Advance
import DurableBus.Proofs.Store.Claiming
import DurableBus.Proofs.Store.Refinement
import DurableBus.Proofs.Store.Bans
import DurableBus.Proofs.Consumer.Release
import DurableBus.Proofs.System.Run
import DurableBus.Proofs.Store.Entries
import DurableBus.Proofs.System.Holding
import DurableBus.Proofs.System.Outbox
import DurableBus.Proofs.System.Exclusive
import DurableBus.Proofs.System.Relay
import DurableBus.Proofs.Json.Envelope
import DurableBus.Proofs.System.Tracing
import DurableBus.Proofs.Store.Coherence
import DurableBus.Proofs.Store.Receipts
import DurableBus.Proofs.Store.Isolation
import DurableBus.Proofs.Store.Groups
import DurableBus.Proofs.Consumer.Parting
import DurableBus.Proofs.System.Course
import DurableBus.Proofs.System.Closing
import DurableBus.Proofs.System.Settling
import DurableBus.Proofs.System.Sweeping
import DurableBus.Proofs.System.Shutdown
import DurableBus.Proofs.Store.Transactions
import DurableBus.Proofs.Consumer.Cancellation
import DurableBus.Proofs.System.Confinement
import DurableBus.Proofs.System.Broadcast
import DurableBus.Proofs.Retry.Schedule
import DurableBus.Proofs.Retry.Trial
import DurableBus.Proofs.Consumer.Dispatch
import DurableBus.Proofs.Store.Publishing
import DurableBus.Proofs.Chronicle
import DurableBus.Proofs.Consumer.Polling
import DurableBus.Proofs.Consumer.Handout
import DurableBus.Proofs.Consumer.Endurance
import DurableBus.Proofs.Consumer.Reporting
import DurableBus.Proofs.Postgres.Transaction
import DurableBus.Proofs.Postgres.Rebuilding
import DurableBus.Proofs.Config.Environment
import DurableBus.Proofs.System.Lasting
import DurableBus.Proofs.Store.Reclaiming
import DurableBus.Proofs.Store.Confluence
import DurableBus.Proofs.System.Acknowledgement
import DurableBus.Proofs.System.Signals
import DurableBus.Proofs.System.Launch
import DurableBus.Proofs.System.Launching
