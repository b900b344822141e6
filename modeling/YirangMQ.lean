import YirangMQ.Backend.Adapter
import YirangMQ.Backend.Content
import YirangMQ.Backend.DeadLetters
import YirangMQ.Backend.Lifecycle
import YirangMQ.Backend.Stops
import YirangMQ.Backend.Types
import YirangMQ.Backends.Addressing
import YirangMQ.Backends.Answers
import YirangMQ.Backends.AtomicWrite
import YirangMQ.Backends.Collisions
import YirangMQ.Backends.Conservation
import YirangMQ.Backends.Decoding
import YirangMQ.Backends.DlqListing
import YirangMQ.Backends.Draining
import YirangMQ.Backends.Fidelity
import YirangMQ.Backends.Fifo
import YirangMQ.Backends.Leases
import YirangMQ.Backends.Metrics
import YirangMQ.Backends.Ownership
import YirangMQ.Backends.Policies
import YirangMQ.Backends.Priority
import YirangMQ.Backends.Promotion
import YirangMQ.Backends.Retries
import YirangMQ.Backends.Settling
import YirangMQ.Backends.Types
import YirangMQ.Configurations.CommandLine
import YirangMQ.Configurations.Configurations
import YirangMQ.Configurations.Documents
import YirangMQ.Configurations.Policies
import YirangMQ.FileSystem.Adapter
import YirangMQ.FileSystem.Confinement
import YirangMQ.FileSystem.Crash
import YirangMQ.FileSystem.DeadLetters
import YirangMQ.FileSystem.Effects
import YirangMQ.FileSystem.Fidelity
import YirangMQ.FileSystem.Filing
import YirangMQ.FileSystem.Frames
import YirangMQ.FileSystem.Inbox
import YirangMQ.FileSystem.Lifecycle
import YirangMQ.FileSystem.Metas
import YirangMQ.FileSystem.Owners
import YirangMQ.FileSystem.Paths
import YirangMQ.FileSystem.Recovery
import YirangMQ.FileSystem.Representation
import YirangMQ.FileSystem.Stands
import YirangMQ.FileSystem.Turns
import YirangMQ.Hybrid.Adapter
import YirangMQ.Hybrid.Atomicity
import YirangMQ.Hybrid.Confinement
import YirangMQ.Hybrid.Consistency
import YirangMQ.Hybrid.Crash
import YirangMQ.Hybrid.Durability
import YirangMQ.Hybrid.Effects
import YirangMQ.Hybrid.Fidelity
import YirangMQ.Hybrid.Invariant
import YirangMQ.Hybrid.Lifecycle
import YirangMQ.Hybrid.Mending
import YirangMQ.Hybrid.Payloads
import YirangMQ.Hybrid.Placement
import YirangMQ.Hybrid.Repair
import YirangMQ.Hybrid.Statements
import YirangMQ.Hybrid.Tending
import YirangMQ.Library.CodePoints
import YirangMQ.Library.Files
import YirangMQ.Library.Interruption
import YirangMQ.Library.Json
import YirangMQ.Library.JsonText
import YirangMQ.Library.JsonWriter
import YirangMQ.Library.Lanes
import YirangMQ.Library.LifeCycle
import YirangMQ.Library.Listing
import YirangMQ.Library.Machine
import YirangMQ.Library.Paths
import YirangMQ.Library.Plan
import YirangMQ.Library.Program
import YirangMQ.Library.Registers
import YirangMQ.Library.Serving
import YirangMQ.Library.Sessions
import YirangMQ.Library.SqlText
import YirangMQ.Library.Table
import YirangMQ.Library.Transaction
import YirangMQ.Library.Utf8
import YirangMQ.Mailbox.Calls
import YirangMQ.Mailbox.Confinement
import YirangMQ.Mailbox.Disposal
import YirangMQ.Mailbox.Enforcement
import YirangMQ.Mailbox.Handler
import YirangMQ.Mailbox.Lengths
import YirangMQ.Mailbox.Service
import YirangMQ.Mailbox.Survival
import YirangMQ.Mailbox.Types
import YirangMQ.Mailbox.Validator
import YirangMQ.Mailbox.Validators
import YirangMQ.Mailbox.Watching
import YirangMQ.Mailbox.Worker
import YirangMQ.QueueManager.Attempts
import YirangMQ.QueueManager.Backoff
import YirangMQ.QueueManager.Delay
import YirangMQ.QueueManager.Delivery
import YirangMQ.QueueManager.Leases
import YirangMQ.QueueManager.Settling
import YirangMQ.QueueManager.Sweep
import YirangMQ.SQLite.Ack
import YirangMQ.SQLite.Adapter
import YirangMQ.SQLite.Atomicity
import YirangMQ.SQLite.Crash
import YirangMQ.SQLite.Effects
import YirangMQ.SQLite.Fidelity
import YirangMQ.SQLite.Invariant
import YirangMQ.SQLite.Lifecycle
import YirangMQ.Samples.Clients
import YirangMQ.Samples.Exchange
import YirangMQ.Samples.Purposes
import YirangMQ.Sql.Columns
import YirangMQ.Sql.Integrity
import YirangMQ.Sql.Slots
import YirangMQ.Sql.Tables
import YirangMQ.Thread.JobPool
import YirangMQ.Thread.Restarts
import YirangMQ.Thread.Stopping
import YirangMQ.Thread.ThreadPool
import YirangMQ.Utilities.Converter
