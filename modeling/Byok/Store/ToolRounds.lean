/-
**Tool rounds.** `server/src/store/tool_rounds.rs`: a round is persisted with its calls, and each
result of a call is committed as an assistant part and a tool message below the run's head.
-/

import Byok.Store.Runs

namespace Byok

open Library Transaction

variable {D : Type} [DecidableEq D] [ChainHash D]

structure ToolCommit where
  checkpointId : CheckpointId
  toolRoundVersion : Nat
  completionSeq : Nat
  settled : Bool
deriving DecidableEq, Repr

/-- The row of a call that is not answered yet. -/
def ToolCall.row (call : ToolCall) : ToolRoundCallRow :=
  { callIndex := call.index
    callId := call.callId
    modelCallId := call.modelCallId
    name := call.name
    arguments := call.arguments
    argumentError := call.argumentError
    status := .pending
    completionSeq := none
    resultContent := none
    resultIsError := none
    committedCheckpointId := none }

/-- The assistant part that commits with a result. Only the first part of a round carries the text,
the thinking and the replay state. -/
def assistantPart (roundId : ToolRoundId) (assistant : ToolRoundAssistant) (completionSeq : Nat)
    (call : ToolRoundCallRow) : CanonicalMessage :=
  let first := completionSeq = 0
  { messageId := roundId.value ++ ":" ++ call.callId ++ ":assistant"
    role := .assistant
    origin := .assistant
    content := .assistant
      (if first then assistant.text else "")
      (if first then assistant.thinking else "")
      (some roundId)
      (if first then assistant.replayState else none)
      [{ index := call.callIndex, callId := call.callId, name := call.name
         arguments := call.arguments }]
    runtimeEventId := none }

/-- The tool message that commits with a result. -/
def resultMessage (roundId : ToolRoundId) (call : ToolRoundCallRow) (result : ToolResult) :
    CanonicalMessage :=
  { messageId := roundId.value ++ ":" ++ call.callId ++ ":result"
    role := .tool
    origin := .tool
    content := .toolResult
      { callId := call.callId
        name := call.name
        content := result.content
        isError := result.isError
        image := result.image
        providerParts := [] }
    runtimeEventId := none }

/-- The row of a call with its result. -/
def ToolRoundCallRow.complete (call : ToolRoundCallRow) (completionSeq : Nat) (result : ToolResult)
    (checkpointId : CheckpointId) : ToolRoundCallRow :=
  { call with
    status := .completed
    completionSeq := some completionSeq
    resultContent := some result.content
    resultIsError := some result.isError
    committedCheckpointId := some checkpointId }

namespace ToolRoundRow

/-- The row of the call with an id. -/
def call? (round : ToolRoundRow) (callId : String) : Option ToolRoundCallRow :=
  round.calls.find? fun call => call.callId = callId

/-- The rows after `UPDATE tool_round_calls … WHERE round_id = ? AND call_id = ? AND
status = 'pending'` and `UPDATE tool_rounds`. -/
def complete (round : ToolRoundRow) (result : ToolResult) (checkpointId : CheckpointId) :
    ToolRoundRow :=
  let calls := round.calls.map fun call =>
    if call.callId = result.callId ∧ call.status = .pending then
      call.complete round.nextCompletionSeq result checkpointId
    else call
  { round with
    status := if calls.any (·.status = .pending) then .pending else .settled
    version := round.version + 1
    nextCompletionSeq := round.nextCompletionSeq + 1
    calls }

end ToolRoundRow

namespace Store

/-- The ownership query of `create_tool_round`. -/
def ownsHead (store : Store D) (runId : RunId) (checkpointId : CheckpointId) : Bool :=
  match store.runs runId with
  | none => false
  | some run =>
    run.headCheckpointId = checkpointId && run.status = .running &&
      store.conversations run.conversationId = some ⟨some run.headCheckpointId, some runId⟩

/-- `create_tool_round`. The keys of `tool_rounds` and `tool_round_calls` keep out a round id that
is taken and calls that share an index or an id. -/
def createToolRound (roundId : ToolRoundId) (runId : RunId) (baseCheckpointId : CheckpointId)
    (assistant : ToolRoundAssistant) (calls : List ToolCall) (createdAtMs : Option Nat)
    (nowMs : Int) : StoreTransaction D Unit := do
  require (calls ≠ []) (.store "cannot persist an empty tool round")
  let ownership ← read (·.ownsHead runId baseCheckpointId)
  require (ownership = true)
    (.store ("run " ++ runId.value ++ " cannot start tool round at checkpoint " ++
      toString baseCheckpointId.value))
  require (createdAtMs.all (· ≤ 9223372036854775807))
    (.protocol "tool round timestamp exceeds SQLite INTEGER")
  let existing ← read (·.toolRounds roundId)
  require (existing = none ∧ (calls.map (·.index)).Nodup ∧ (calls.map (·.callId)).Nodup) .database
  write <| insertToolRound roundId
    { runId
      baseCheckpointId
      assistant
      status := .pending
      version := 0
      nextCompletionSeq := 0
      createdAtMs := (createdAtMs.map Int.ofNat).getD nowMs
      calls := calls.map (·.row) }

def commitToolResult (conversationId : ConversationId) (runId : RunId) (roundId : ToolRoundId)
    (result : ToolResult) : StoreTransaction D ToolCommit := do
  let found ← read fun store => (store.toolRounds roundId).filter (·.runId = runId)
  let round ← orFail found (.store ("unknown tool round: " ++ roundId.value))
  require (round.status = .pending)
    (.store ("tool round is already settled: " ++ roundId.value))
  let call ← orFail (round.call? result.callId)
    (.protocol ("unknown tool result call_id: " ++ result.callId))
  require (call.status = .pending)
    (.protocol ("duplicate tool result call_id: " ++ result.callId))
  let run ← read (·.runs runId)
  let run ← orFail run .database
  let checkpoint ← appendCheckpointTx conversationId runId run.headCheckpointId
    [assistantPart roundId round.assistant round.nextCompletionSeq call,
      resultMessage roundId call result]
  write (updateToolRound roundId (·.complete result checkpoint))
  pure
    { checkpointId := checkpoint
      toolRoundVersion := round.version + 1
      completionSeq := round.nextCompletionSeq
      settled := (round.complete result checkpoint).status = .settled }

end Store

end Byok
