import VibeKanban.Lib.Except
import VibeKanban.Lib.Saturation
import VibeKanban.Lib.Search
import VibeKanban.Lib.Text
import VibeKanban.Lib.Base64
import VibeKanban.Lib.Tally
import VibeKanban.Lib.Uuid
import VibeKanban.Lib.Json
import VibeKanban.Lib.JsonText
import VibeKanban.Lib.Table
import VibeKanban.Lib.Fold
import VibeKanban.Lib.Upsert
import VibeKanban.Lib.Dag
import VibeKanban.Lib.Prog
import VibeKanban.Lib.Interleaving
import VibeKanban.Lib.Discipline
import VibeKanban.Lib.Transaction
import VibeKanban.Lib.Lines
import VibeKanban.Workflow.Graph
import VibeKanban.Workflow.Validation
import VibeKanban.Workflow.Planner
import VibeKanban.Workflow.Rework
import VibeKanban.Workflow.ReworkExact
import VibeKanban.Workflow.Ready
import VibeKanban.Workflow.ReworkReady
import VibeKanban.Workflow.Handlers
import VibeKanban.Router.ConditionRouter
import VibeKanban.Runtime.Db
import VibeKanban.Runtime.Writes
import VibeKanban.Runtime.Acceptance
import VibeKanban.Runtime.Snapshot
import VibeKanban.Runtime.Statements
import VibeKanban.Runtime.Drive
import VibeKanban.Runtime.Operations
import VibeKanban.Runtime.Frames
import VibeKanban.Runtime.Interaction
import VibeKanban.Runtime.QueueMoves
import VibeKanban.Runtime.Waiting
import VibeKanban.Runtime.Slots
import VibeKanban.Runtime.Dispatch
import VibeKanban.Runtime.Absorption
import VibeKanban.Runtime.Board
import VibeKanban.Runtime.View
import VibeKanban.Runtime.Progress
import VibeKanban.Runtime.Passes
import VibeKanban.Runtime.Rounds
import VibeKanban.Runtime.History
import VibeKanban.Runtime.ReworkStart
import VibeKanban.Runtime.FirstBoard
import VibeKanban.Runtime.Accounting
import VibeKanban.Runtime.Observation
import VibeKanban.Runtime.Sighting
import VibeKanban.Runtime.Children
import VibeKanban.Runtime.Calls
import VibeKanban.Runtime.Commute
import VibeKanban.Runtime.Driving
import VibeKanban.Runtime.Orders
import VibeKanban.Runtime.Stuck
import VibeKanban.Runtime.Queue
import VibeKanban.Runtime.Ledger
import VibeKanban.Runtime.Submission
import VibeKanban.Runtime.Management
import VibeKanban.Router.Agreement
import VibeKanban.Router.Blocks
import VibeKanban.Host.Journal
import VibeKanban.Agent.Event
import VibeKanban.Lib.Serde
import VibeKanban.Agent.Codec
import VibeKanban.Agent.Audit
import VibeKanban.Host.Monitor
import VibeKanban.Orchestration.Plan
import VibeKanban.Orchestration.Store
import VibeKanban.Orchestration.Codec
import VibeKanban.Orchestration.Service
import VibeKanban.Orchestration.Effects
import VibeKanban.Orchestration.Lease
import VibeKanban.Orchestration.Each
import VibeKanban.Orchestration.Serial
import VibeKanban.Orchestration.Outbox
import VibeKanban.Orchestration.Status
import VibeKanban.ProjectStore.Document
import VibeKanban.ProjectStore.Projection
import VibeKanban.ProjectStore.Stages
import VibeKanban.ProjectStore.Exact
import VibeKanban.ProjectStore.Store
import VibeKanban.ProjectStore.Authority
import VibeKanban.Relay.TrustedKeys
import VibeKanban.Relay.Signing
import VibeKanban.Relay.WsFrames
import VibeKanban.Relay.SigningService
import VibeKanban.Events.MsgStore
import VibeKanban.Lib.Machine
import VibeKanban.Events.Streams
import VibeKanban.Events.Convergence
import VibeKanban.Lib.Chunks
import VibeKanban.Relay.Fragment
import VibeKanban.Relay.TrustedFile
import VibeKanban.Codex.JsonRpc
import VibeKanban.Agent.Approvals
import VibeKanban.Events.DiffStream
import VibeKanban.Editor.Validation
import VibeKanban.Lib.Splice
import VibeKanban.Editor.Patch
import VibeKanban.Editor.History
import VibeKanban.Editor.Draft
import VibeKanban.WebCore.Graph
import VibeKanban.WebCore.Commands
import VibeKanban.WebCore.Wired
import VibeKanban.WebCore.Invariant
import VibeKanban.Editor.Timeline
import VibeKanban.WebCore.Runs
import VibeKanban.WebCore.Migrate
import VibeKanban.WebCore.Normal
import VibeKanban.Orchestration.Join
import VibeKanban.Workflow.Exact
import VibeKanban.Lib.Substitute
import VibeKanban.Workflow.Template
import VibeKanban.Agent.Reducer
import VibeKanban.Agent.Projection
import VibeKanban.Agent.Port
import VibeKanban.Agent.Subscription
import VibeKanban.Agent.HostEvents
import VibeKanban.Agent.Retry
import VibeKanban.Runtime.Completion
import VibeKanban.Lib.Fields
import VibeKanban.Mcp.Jsonc
import VibeKanban.Lib.Successive
import VibeKanban.Schedule.Recurrence
import VibeKanban.Filesystem.Tree
import VibeKanban.Filesystem.Watcher
import VibeKanban.Filesystem.Notices
import VibeKanban.Filesystem.Coverage
import VibeKanban.Lib.Smallest
import VibeKanban.Files.Pages
import VibeKanban.Lib.Utf8
import VibeKanban.Git.Format
import VibeKanban.Git.Output
import VibeKanban.Git.Worktree
import VibeKanban.Lib.Dict
import VibeKanban.Profiles.Configs
import VibeKanban.Profiles.RoundTrip
import VibeKanban.Profiles.Kinds
import VibeKanban.Diff.Unified
import VibeKanban.Diff.Hunks
import VibeKanban.Logs.PlainText
import VibeKanban.Logs.Lossless
import VibeKanban.Workflow.Preview
import VibeKanban.AgentCommands.Markdown
import VibeKanban.AgentCommands.FrontMatter
import VibeKanban.AgentCommands.Edits
import VibeKanban.AgentCommands.RoundTrip
