import Byok.Library.Ancestry
import Byok.Library.System
import Byok.Library.Watched
import Byok.Library.Transaction
import Byok.Library.Fallible
import Byok.Library.Crash
import Byok.Library.Files
import Byok.Library.Gather
import Byok.Library.Blocks
import Byok.Library.Transducer
import Byok.Library.Json
import Byok.Library.Varint
import Byok.Library.Adjacent
import Byok.Library.Pairs
import Byok.Library.Utf8
import Byok.Library.Settle
import Byok.Library.Bisect
import Byok.Library.Spans
import Byok.Library.Turns
import Byok.Library.Hex
import Byok.Model.Value
import Byok.Model.Message
import Byok.Model.Projection
import Byok.Model.NestedTexts
import Byok.Model.Text
import Byok.Model.ToolResultReplay
import Byok.Model.ToolResultGate
import Byok.Model.ToolResultSpill
import Byok.Model.TokenCount
import Byok.Model.ProjectionLaws
import Byok.Model.Segments
import Byok.Model.Run
import Byok.Store.Schema
import Byok.Store.Messages
import Byok.Store.Conversations
import Byok.Store.Checkpoints
import Byok.Store.Runs
import Byok.Store.ToolRounds
import Byok.Store.Writes
import Byok.Store.WellFormed
import Byok.Store.Lineage
import Byok.Store.NewMessages
import Byok.Store.Operations
import Byok.Store.Chain
import Byok.Store.Prefix
import Byok.Store.Ownership
import Byok.Store.Isolation
import Byok.Store.Foreign
import Byok.Store.Storable
import Byok.Cursor.Checkpoint.Encode
import Byok.Cursor.Checkpoint.Decode
import Byok.Cursor.Checkpoint.Echo
import Byok.Cursor.Checkpoint.RoundTrip
import Byok.Cursor.Checkpoint.Recognition
import Byok.Cursor.Checkpoint.Roots
import Byok.Cursor.Checkpoint.Archive
import Byok.Cursor.Transport.Inbox
import Byok.Cursor.Transport.OrderedDelivery
import Byok.Cursor.Protocol.JsonStream
import Byok.Cursor.Protocol.JsonStrings
import Byok.Cursor.Protocol.StringMembers
import Byok.Cursor.Tools.Schedule
import Byok.Cursor.Tools.Runtime
import Byok.Cursor.Tools.Ownership
import Byok.Cursor.Tools.Detached
import Byok.Cursor.Tools.EditPath
import Byok.Cursor.Tools.EditCard
import Byok.Run.Handle
import Byok.Run.Messages
import Byok.Run.ToolRound
import Byok.Run.Commits
import Byok.Run.RoundParts
import Byok.Run.RoundProgress
import Byok.Run.RoundHistory
import Byok.Run.Compaction
import Byok.Run.SummarySlot
import Byok.Run.SummaryReplay
import Byok.Run.SummaryTrim
import Byok.Run.Engine
import Byok.Run.ModelCycle
import Byok.Run.ProviderStream
import Byok.Run.ProviderAnswers
import Byok.Run.Effects
import Byok.Run.EngineSteps
import Byok.Run.EngineRuns
import Byok.Run.Delivery
import Byok.Run.LateResults
import Byok.Run.OverflowLadder
import Byok.Cursor.Conversation.Actor
import Byok.Cursor.Conversation.Generations
import Byok.Cursor.Conversation.Endings
import Byok.Cursor.Conversation.Registry
import Byok.Cursor.Conversation.RegistryParts
import Byok.Cursor.Conversation.Deliveries
import Byok.Store.Reappend
import Byok.Store.OneByOne
import Byok.Cursor.Compile.UserTurn
import Byok.Cursor.Compile.Prepare
import Byok.Cursor.Compile.Turns
import Byok.Cursor.Compile.Waiting
import Byok.Cursor.Compile.Resent
import Byok.Provider.Anthropic
import Byok.Provider.AnthropicShape
import Byok.Codex.Request
import Byok.Codex.History
import Byok.Codex.HistoryLoop
import Byok.Codex.HistorySegments
import Byok.Codex.HistoryKept
import Byok.Codex.HistoryTurns
import Byok.Codex.HistoryTrim
import Byok.Codex.HistoryTranslated
import Byok.Gateway.Response
import Byok.Gateway.StopSequences
import Byok.Gateway.Framing
import Byok.Gateway.Simulation
import Byok.Gateway.Calls
import Byok.Gateway.Answers
import Byok.Devin.Varint
import Byok.Devin.Wire
import Byok.Devin.WireLaws
import Byok.Devin.HostPatch
import Byok.Devin.PatchSteps
import Byok.Devin.PatchRuns
import Byok.Devin.PatchSurvives
import Byok.Semble.Chunk
import Byok.Semble.Snapshot
import Byok.Semble.Symbols
import Byok.Semble.Discovery
import Byok.Semble.Loaded
import Byok.Semble.Repository
import Byok.Library.Snapshots
import Byok.Run.ProviderRuns
import Byok.Provider.Upstream
import Byok.Provider.OpenAiChat
import Byok.Provider.ChatDecoding
import Byok.Provider.AnthropicStream
import Byok.Provider.AnthropicDecoding
import Byok.Provider.OpenAiResponses
import Byok.Provider.ResponsesDecoding
import Byok.Cursor.Transport.Output
import Byok.Cursor.Transport.Routes
import Byok.Library.Critical
import Byok.Plugin.State
import Byok.Plugin.StateRuns
import Byok.Library.Apportion
import Byok.Cursor.Services.Usage
import Byok.Cursor.Services.UsageTotals
import Byok.Library.Sorting
import Byok.Devin.Assignment
import Byok.Devin.ModelScan
import Byok.Devin.Response
import Byok.Devin.Request
import Byok.Devin.Collect
import Byok.Devin.Echo
import Byok.Library.Ledger
import Byok.Store.Tasks
import Byok.Cursor.Compile.Completions
import Byok.Cursor.Conversation.Subagents
import Byok.Cursor.Conversation.SubagentReports
import Byok.Library.Budget
import Byok.Cursor.Tools.TruncatedText
import Byok.Cursor.Tools.GrepCard
import Byok.Cursor.Tools.GrepSettled
import Byok.Cursor.Tools.McpCard
import Byok.Cursor.Tools.WebSearchCard
import Byok.Cursor.Tools.ResultGate
import Byok.Library.Reachable
import Byok.Store.Blobs
import Byok.Store.BlobPasses
import Byok.Store.BlobRuns
import Byok.Store.Recycle
import Byok.Library.Preserves
import Byok.Store.Homed
import Byok.Store.RecycleRuns
