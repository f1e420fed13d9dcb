import LeaderLease.Address.Ipv6
import LeaderLease.Address.Redis
import LeaderLease.Address.Url
import LeaderLease.Data.Table
import LeaderLease.Election.Attempt
import LeaderLease.Election.Candidate
import LeaderLease.Election.Contest
import LeaderLease.Election.Error
import LeaderLease.Election.Identity
import LeaderLease.Election.Journal
import LeaderLease.Election.Plan
import LeaderLease.Election.Run
import LeaderLease.Election.Settings
import LeaderLease.Election.Sighting
import LeaderLease.Files.System
import LeaderLease.Files.Tree
import LeaderLease.Handling.Desk
import LeaderLease.Handling.Error
import LeaderLease.Handling.Handler
import LeaderLease.Handling.Object
import LeaderLease.Handling.Request
import LeaderLease.Handling.Response
import LeaderLease.Handling.Script
import LeaderLease.Json.Basic
import LeaderLease.Json.Decoding
import LeaderLease.Json.Reader
import LeaderLease.Json.Value
import LeaderLease.Lease.Basic
import LeaderLease.Lease.Codec
import LeaderLease.Logging.Filter
import LeaderLease.Logging.Format
import LeaderLease.Logging.Line
import LeaderLease.Main
import LeaderLease.Number.Binary64
import LeaderLease.Number.Decimal
import LeaderLease.Number.Numeral
import LeaderLease.Number.Shortest
import LeaderLease.Process.Course
import LeaderLease.Proofs.Agreement
import LeaderLease.Proofs.Attempts
import LeaderLease.Proofs.Breakdown
import LeaderLease.Proofs.Canonical
import LeaderLease.Proofs.Career
import LeaderLease.Proofs.Chronicle
import LeaderLease.Proofs.Clocks
import LeaderLease.Proofs.Codec
import LeaderLease.Proofs.Comparison
import LeaderLease.Proofs.Confinement
import LeaderLease.Proofs.Dealings
import LeaderLease.Proofs.Deeds
import LeaderLease.Proofs.Deletion
import LeaderLease.Proofs.Dismissal
import LeaderLease.Proofs.Documents
import LeaderLease.Proofs.Doubles
import LeaderLease.Proofs.Exclusion
import LeaderLease.Proofs.Farewell
import LeaderLease.Proofs.Firing
import LeaderLease.Proofs.Handover
import LeaderLease.Proofs.Headcount
import LeaderLease.Proofs.Hearing
import LeaderLease.Proofs.Isolation
import LeaderLease.Proofs.Layers
import LeaderLease.Proofs.Leading
import LeaderLease.Proofs.Lifecycle
import LeaderLease.Proofs.Literals
import LeaderLease.Proofs.Merging
import LeaderLease.Proofs.Milestones
import LeaderLease.Proofs.Moments
import LeaderLease.Proofs.Moves
import LeaderLease.Proofs.Neighbours
import LeaderLease.Proofs.Nesting
import LeaderLease.Proofs.Numerals
import LeaderLease.Proofs.Outcomes
import LeaderLease.Proofs.Pace
import LeaderLease.Proofs.Passage
import LeaderLease.Proofs.Patience
import LeaderLease.Proofs.Phases
import LeaderLease.Proofs.Readback
import LeaderLease.Proofs.Readiness
import LeaderLease.Proofs.Register
import LeaderLease.Proofs.Removals
import LeaderLease.Proofs.Replacement
import LeaderLease.Proofs.Reports
import LeaderLease.Proofs.Rhythm
import LeaderLease.Proofs.Scopes
import LeaderLease.Proofs.Spellings
import LeaderLease.Proofs.Stall
import LeaderLease.Proofs.Standing
import LeaderLease.Proofs.Succession
import LeaderLease.Proofs.Swapping
import LeaderLease.Proofs.Tenure
import LeaderLease.Proofs.Term
import LeaderLease.Proofs.Undated
import LeaderLease.Proofs.Work
import LeaderLease.Proofs.Wrapping
import LeaderLease.Redis.Lock
import LeaderLease.Redis.Script
import LeaderLease.Redis.Server
import LeaderLease.Scenario.Agenda
import LeaderLease.Scenario.Basic
import LeaderLease.Scenario.Commands
import LeaderLease.Scenario.Participant
import LeaderLease.Settings.Configuration
import LeaderLease.Settings.Decoding
import LeaderLease.Settings.Environment
import LeaderLease.Settings.Loader
import LeaderLease.Store.Backend
import LeaderLease.Store.Call
import LeaderLease.Store.Error
import LeaderLease.Store.Handle
import LeaderLease.Store.Memory
import LeaderLease.Termination.DoneSignal
import LeaderLease.Termination.Listener
import LeaderLease.Termination.Office
import LeaderLease.Termination.SignalDesk
import LeaderLease.Termination.Token
import LeaderLease.Text.Blank
import LeaderLease.Text.Quoted
import LeaderLease.Text.Shown
import LeaderLease.Text.Utf8
import LeaderLease.Time.Calendar
import LeaderLease.Time.Duration
import LeaderLease.Time.Instant
import LeaderLease.Time.Timestamp
import LeaderLease.Toml.Basic
import LeaderLease.Toml.Literal
import LeaderLease.Toml.Reader
import LeaderLease.Toml.Scalar
import LeaderLease.Toml.Section
