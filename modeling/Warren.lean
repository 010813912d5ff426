import Warren.Allocation.Fault
import Warren.Allocation.Jobspec
import Warren.Allocation.Limits
import Warren.Allocation.Placement
import Warren.Api.Basic
import Warren.Api.Server
import Warren.Backoff
import Warren.Binary64
import Warren.Binary64.Extended
import Warren.Binary64.Shortest
import Warren.Cleanup.Basic
import Warren.Cleanup.Task
import Warren.Configuration
import Warren.Configuration.Options
import Warren.Configuration.Section
import Warren.Controller.Answer
import Warren.Controller.Basic
import Warren.Controller.Expiry
import Warren.Controller.Progress
import Warren.Crash
import Warren.Dict
import Warren.Directive
import Warren.Fault
import Warren.Gateway.Basic
import Warren.Gateway.Session
import Warren.Health
import Warren.Hostlist
import Warren.JobId
import Warren.Json.Basic
import Warren.Json.Decode
import Warren.Json.Equality
import Warren.Json.Patch
import Warren.Json.Printer
import Warren.Json.Reader
import Warren.Main
import Warren.Message.Frame
import Warren.Message.Framing
import Warren.Message.Notice
import Warren.Message.Request
import Warren.NameSet
import Warren.Objects.Breakdown
import Warren.Objects.Inventory
import Warren.Objects.Metadata
import Warren.Objects.Mount
import Warren.Objects.StorageNode
import Warren.Objects.Workflow
import Warren.Proofs.Allocation.Ceilings
import Warren.Proofs.Allocation.Coverage
import Warren.Proofs.Allocation.Demands
import Warren.Proofs.Allocation.Exactness
import Warren.Proofs.Allocation.Extension
import Warren.Proofs.Allocation.Proportion
import Warren.Proofs.Allocation.Recognition
import Warren.Proofs.Allocation.Reservations
import Warren.Proofs.Allocation.Rounds
import Warren.Proofs.Allocation.Shares
import Warren.Proofs.Allocation.Vetting
import Warren.Proofs.Api.Contents
import Warren.Proofs.Api.Faults
import Warren.Proofs.Api.Glance
import Warren.Proofs.Api.Grants
import Warren.Proofs.Api.Log
import Warren.Proofs.Api.Replay
import Warren.Proofs.Api.Selection
import Warren.Proofs.Api.Serving
import Warren.Proofs.Api.StoredStage
import Warren.Proofs.Api.Twin
import Warren.Proofs.Backoff
import Warren.Proofs.Cleanup.Attempts
import Warren.Proofs.Cleanup.Completion
import Warren.Proofs.Cleanup.Finalizers
import Warren.Proofs.Cleanup.Movements
import Warren.Proofs.Cleanup.Respect
import Warren.Proofs.Cleanup.Undertaking
import Warren.Proofs.Cleanup.Waning
import Warren.Proofs.Controller.Absence
import Warren.Proofs.Controller.Alarm
import Warren.Proofs.Controller.Blocked
import Warren.Proofs.Controller.Cadence
import Warren.Proofs.Controller.Causality
import Warren.Proofs.Controller.Closing
import Warren.Proofs.Controller.Containment
import Warren.Proofs.Controller.Dealing
import Warren.Proofs.Controller.Deed
import Warren.Proofs.Controller.Errand
import Warren.Proofs.Controller.Handling
import Warren.Proofs.Controller.Launch
import Warren.Proofs.Controller.Ledger
import Warren.Proofs.Controller.License
import Warren.Proofs.Controller.Lifespan
import Warren.Proofs.Controller.Look
import Warren.Proofs.Controller.Namesake
import Warren.Proofs.Controller.Newcomer
import Warren.Proofs.Controller.Offer
import Warren.Proofs.Controller.Pace
import Warren.Proofs.Controller.Provision
import Warren.Proofs.Controller.Redelivery
import Warren.Proofs.Controller.Regress
import Warren.Proofs.Controller.Repetition
import Warren.Proofs.Controller.Requests
import Warren.Proofs.Controller.Resting
import Warren.Proofs.Controller.Retention
import Warren.Proofs.Controller.Retirement
import Warren.Proofs.Controller.Run
import Warren.Proofs.Controller.Setup
import Warren.Proofs.Controller.Sparing
import Warren.Proofs.Controller.Submission
import Warren.Proofs.Controller.Surrender
import Warren.Proofs.Controller.Tolerance
import Warren.Proofs.Controller.Transience
import Warren.Proofs.Controller.Turn
import Warren.Proofs.Dict
import Warren.Proofs.Directive
import Warren.Proofs.Fallible
import Warren.Proofs.Gateway.Course
import Warren.Proofs.Gateway.Delivery
import Warren.Proofs.Health.Marks
import Warren.Proofs.Health.Targets
import Warren.Proofs.Hostlist.Encoding
import Warren.Proofs.Hostlist.Grammar
import Warren.Proofs.Hostlist.Runs
import Warren.Proofs.Hostlist.Segments
import Warren.Proofs.JobId
import Warren.Proofs.JobId.Spelling
import Warren.Proofs.Json.Laws
import Warren.Proofs.Json.Merge
import Warren.Proofs.Json.Overwrite
import Warren.Proofs.Message.Fields
import Warren.Proofs.Message.Resources
import Warren.Proofs.Message.RoundTrip
import Warren.Proofs.Service.Alone
import Warren.Proofs.Service.Course
import Warren.Proofs.Text.Blank
import Warren.Proofs.Text.Numeral
import Warren.Proofs.Text.Pieces
import Warren.Proofs.Text.Positional
import Warren.Proofs.Topology.Attachment
import Warren.Proofs.Topology.Counts
import Warren.Proofs.Watch.Order
import Warren.Proofs.Watch.Poll
import Warren.Proofs.Watch.Rounds
import Warren.Proofs.Watch.Stranded
import Warren.Proofs.Watch.Unbroken
import Warren.Proofs.Watch.Update
import Warren.Proofs.Watch.View
import Warren.Registry
import Warren.ResourceGraph
import Warren.Service.Basic
import Warren.Service.Run
import Warren.Service.Startup
import Warren.Site
import Warren.Span
import Warren.Stage
import Warren.Text.Blank
import Warren.Text.CaseTable
import Warren.Text.Lowercase
import Warren.Text.Numeral
import Warren.Text.Occurrence
import Warren.Text.Split
import Warren.Text.Timestamp
import Warren.Toml.Document
import Warren.Toml.Node
import Warren.Toml.Quoted
import Warren.Toml.Scalar
import Warren.Toml.Value
import Warren.Topology
import Warren.Watch
