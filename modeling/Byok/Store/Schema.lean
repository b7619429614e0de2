/-
**The tables of the store.**

`server/migrations`. A conversation, a run and a tool round are found by their key; messages and
checkpoints are only ever inserted, so those tables are lists in insertion order. A checkpoint row
carries its rows of `checkpoint_messages` (the message ids by ordinal), a tool round row its rows of
`tool_round_calls`.

The digest of a checkpoint is an element of an arbitrary type `D` with a chaining function
(`ChainHash`); the source uses SHA-256.
-/

import Byok.Library.Ancestry
import Byok.Library.Transaction
import Byok.Model.Message
import Mathlib.Logic.Function.Basic
import Mathlib.Tactic.Simps.Basic

namespace Byok

open Library

/-! ### Digests -/

/-- The hash that chains checkpoints: the digest of the empty history, and the digest of a parent's
digest followed by the JSON texts of some messages. -/
class ChainHash (D : Type) where
  root : D
  chain : D → List CanonicalMessage → D

variable {D : Type}

def rootDigest [ChainHash D] : D := ChainHash.root

/-- `chained_digest`. Two messages have the same JSON text when they have the same payload. -/
def chainedDigest [ChainHash D] (parent : D) (additions : List CanonicalMessage) : D :=
  ChainHash.chain parent (additions.map (·.payload))

@[simp] theorem chainedDigest_payload [ChainHash D] (parent : D) (additions : List CanonicalMessage) :
    chainedDigest parent (additions.map (·.payload)) = chainedDigest parent additions := by
  simp [chainedDigest, Function.comp_def]

/-- The digest that is the history itself. No two histories share it. -/
structure HistoryDigest where
  steps : List (List CanonicalMessage)
deriving DecidableEq, Repr

instance : ChainHash HistoryDigest where
  root := ⟨[]⟩
  chain parent additions := ⟨parent.steps ++ [additions]⟩

/-! ### Rows -/

structure ConversationRow where
  currentCheckpointId : Option CheckpointId
  activeRunId : Option RunId
deriving DecidableEq, Repr

/-- A row of `messages`. `message` is what `payload_json` holds; the identity columns are its. -/
structure MessageRow where
  conversationId : ConversationId
  message : CanonicalMessage
deriving DecidableEq, Repr

/-- A row of `conversation_checkpoints` with its rows of `checkpoint_messages`. -/
structure CheckpointRow (D : Type) where
  checkpointId : CheckpointId
  conversationId : ConversationId
  parentCheckpointId : Option CheckpointId
  stateDigest : D
  messageIds : List String
deriving DecidableEq, Repr

inductive RunStatus where
  | running
  | completed
  | cancelled
  | failed
deriving DecidableEq, Repr

def RunStatus.asStr : RunStatus → String
  | .running => "running"
  | .completed => "completed"
  | .cancelled => "cancelled"
  | .failed => "failed"

structure RunRow where
  conversationId : ConversationId
  baseCheckpointId : CheckpointId
  headCheckpointId : CheckpointId
  status : RunStatus
  failureCategory : Option String
  failureSummary : Option String
  createdAtMs : Int
deriving DecidableEq, Repr

inductive ToolRoundStatus where
  | pending
  | settled
deriving DecidableEq, Repr

inductive ToolCallStatus where
  | pending
  | completed
deriving DecidableEq, Repr

structure ToolRoundCallRow where
  callIndex : Nat
  callId : String
  modelCallId : String
  name : String
  arguments : Value
  argumentError : Option String
  status : ToolCallStatus
  completionSeq : Option Nat
  resultContent : Option String
  resultIsError : Option Bool
  committedCheckpointId : Option CheckpointId
deriving DecidableEq, Repr

/-- A row of `tool_rounds` with its rows of `tool_round_calls` in the order of their insertion. -/
structure ToolRoundRow where
  runId : RunId
  baseCheckpointId : CheckpointId
  assistant : ToolRoundAssistant
  status : ToolRoundStatus
  version : Nat
  nextCompletionSeq : Nat
  createdAtMs : Int
  calls : List ToolRoundCallRow
deriving DecidableEq, Repr

/-- The database. `nextCheckpointId` is the `AUTOINCREMENT` counter of `conversation_checkpoints`. -/
structure Store (D : Type) where
  conversations : ConversationId → Option ConversationRow
  messages : List MessageRow
  checkpoints : List (CheckpointRow D)
  nextCheckpointId : Nat
  runs : RunId → Option RunRow
  toolRounds : ToolRoundId → Option ToolRoundRow

/-- A write transaction of the store. -/
abbrev StoreTransaction (D : Type) : Type → Type := Transaction (Store D) Error

namespace Store

/-- The database after the migrations. -/
def empty : Store D := ⟨fun _ => none, [], [], 1, fun _ => none, fun _ => none⟩

/-! ### Reading -/

/-- The checkpoint with an id. -/
def checkpoint? (store : Store D) (checkpointId : CheckpointId) : Option (CheckpointRow D) :=
  lookup CheckpointRow.checkpointId store.checkpoints checkpointId

/-- `SELECT payload_json FROM messages WHERE conversation_id = ? AND message_id = ?`. -/
def message? (store : Store D) (conversationId : ConversationId) (messageId : String) :
    Option CanonicalMessage :=
  (store.messages.find? fun row =>
    row.conversationId = conversationId && row.message.messageId = messageId).map (·.message)

/-- The path from the root of the conversation to a checkpoint: the recursive `lineage` query. -/
def lineage (store : Store D) (checkpointId : CheckpointId) : List (CheckpointRow D) :=
  ancestry CheckpointRow.checkpointId CheckpointRow.parentCheckpointId store.checkpoints
    store.checkpoints.length checkpointId

/-- The messages that a checkpoint adds: its rows of `checkpoint_messages` joined with `messages`. -/
def additions (store : Store D) (row : CheckpointRow D) : List CanonicalMessage :=
  row.messageIds.filterMap (store.message? row.conversationId)

/-- `load_checkpoint_messages_tx`. -/
def loadCheckpointMessages (store : Store D) (checkpointId : CheckpointId) : List CanonicalMessage :=
  (store.lineage checkpointId).flatMap store.additions

/-! ### Writing -/

/-- A row into `messages`. -/
@[simps]
def insertMessage (conversationId : ConversationId) (message : CanonicalMessage) (store : Store D) :
    Store D :=
  { store with messages := store.messages ++ [⟨conversationId, message.payload⟩] }

/-- A row into `conversation_checkpoints`, and its rows into `checkpoint_messages`. -/
@[simps]
def insertCheckpointRow (conversationId : ConversationId) (parent : Option CheckpointId) (digest : D)
    (messageIds : List String) (store : Store D) : Store D :=
  { store with
    checkpoints := store.checkpoints ++
      [⟨⟨store.nextCheckpointId⟩, conversationId, parent, digest, messageIds⟩]
    nextCheckpointId := store.nextCheckpointId + 1 }

/-- An update of the row of a conversation, when there is one. -/
@[simps]
def updateConversation (conversationId : ConversationId) (change : ConversationRow → ConversationRow)
    (store : Store D) : Store D :=
  { store with
    conversations := Function.update store.conversations conversationId
      ((store.conversations conversationId).map change) }

/-- A row into `conversations`. -/
@[simps]
def insertConversation (conversationId : ConversationId) (row : ConversationRow) (store : Store D) :
    Store D :=
  { store with conversations := Function.update store.conversations conversationId (some row) }

/-- An update of the row of a run, when there is one. -/
@[simps]
def updateRun (runId : RunId) (change : RunRow → RunRow) (store : Store D) : Store D :=
  { store with runs := Function.update store.runs runId ((store.runs runId).map change) }

/-- A row into `runs`. -/
@[simps]
def insertRun (runId : RunId) (row : RunRow) (store : Store D) : Store D :=
  { store with runs := Function.update store.runs runId (some row) }

/-- An update of the row of a tool round, when there is one. -/
@[simps]
def updateToolRound (roundId : ToolRoundId) (change : ToolRoundRow → ToolRoundRow)
    (store : Store D) : Store D :=
  { store with
    toolRounds := Function.update store.toolRounds roundId ((store.toolRounds roundId).map change) }

/-- A row into `tool_rounds`, with its rows of `tool_round_calls`. -/
@[simps]
def insertToolRound (roundId : ToolRoundId) (row : ToolRoundRow) (store : Store D) : Store D :=
  { store with toolRounds := Function.update store.toolRounds roundId (some row) }

end Store

end Byok
