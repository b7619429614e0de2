/-
**The engine of a run.** `server/src/run/engine.rs`, `model_retry.rs`.

`RunEngine::run` claims the conversation, stores the initial messages, takes up a tool round that was
left behind, and then goes through model cycles until the model answers without calls. Commands reach
it through its port at the places where it waits.

* `EnginePc` — where it is; each `await` is a place of its own.
* `EngineState.step` — its steps.
* `engineSystem` — one run while others use its handle and the store.

What depends on the text of the provider, on token counts or on other tables comes in with an
`EngineEvent`, without any assumption on it.
-/

import Byok.Library.System
import Byok.Run.Compaction
import Byok.Run.ToolRound
import Byok.Store.Foreign

namespace Byok

open Library

variable {D : Type} [DecidableEq D] [ChainHash D]

/-! ### Model calls -/

/-- `ModelCycleResult`, without usage and finish reason. -/
structure ModelCycleResult where
  modelCallId : String
  text : String
  reasoning : String
  replayState : Option ProviderReplayState
  calls : List ToolCall
deriving DecidableEq, Repr

/-- `ModelCycleFailure`, without usage. -/
structure ModelCycleFailure where
  failure : RunFailure
  partialText : String
  partialReasoning : String
  replayState : Option ProviderReplayState
  retryable : Bool
deriving DecidableEq, Repr

def maxModelRetries : Nat := 8

def maxProtocolRetries : Nat := 1

def shouldRetry (failure : ModelCycleFailure) (retries : Nat) : Bool :=
  failure.retryable && match failure.failure with
    | .protocol _ => retries < maxProtocolRetries
    | .provider _ | .truncated _ | .store _ | .client _ => retries < maxModelRetries

structure OverflowEpisode where
  compactions : Nat
deriving DecidableEq, Repr

namespace OverflowEpisode

def retention (overflow : OverflowEpisode) : Option Retention :=
  match overflow.compactions with
  | 0 => some .window
  | 1 => some .none
  | _ + 2 => none

def providerRefused (overflow : OverflowEpisode) : OverflowEpisode := ⟨overflow.compactions + 1⟩

def preflightCompacted (overflow : OverflowEpisode) : OverflowEpisode :=
  ⟨max overflow.compactions 1⟩

def alreadyCompacted (overflow : OverflowEpisode) : Bool := 0 < overflow.compactions

end OverflowEpisode

/-- The locals of `run_claimed` that live across model cycles, `retries` of the current model call, and
the column `provider_call_index` of the run, which only the run itself counts up. `shortSummary` is
`manual_short_summary`; `manual_summary_detail_retry` says that there is one. -/
structure EngineLocals where
  providerCallIndex : Nat
  overflow : OverflowEpisode
  retries : Nat
  shortSummary : Option String
deriving DecidableEq, Repr

/-- The locals of `auto_compact`: whether the preflight check started it, `attempts`,
`summary_call_index`, whether the summary of an earlier compaction is used again, and the batches that
came in. -/
structure CompactionJob where
  preflight : Bool
  retention : Retention
  attempts : Nat
  callIndex : Option Nat
  reused : Bool
  pending : List MessageBatch
deriving DecidableEq, Repr

/-- The job when `auto_compact` is called. -/
def CompactionJob.start (preflight : Bool) (retention : Retention) : CompactionJob :=
  ⟨preflight, retention, 0, none, false, []⟩

/-- `event_id` of the summary of an automatic compaction. -/
def CompactionJob.eventId (job : CompactionJob) (runId : RunId) (checkpoint : CheckpointId) : String :=
  if job.reused then "summary:auto:" ++ runId.value ++ ":reuse:" ++ toString checkpoint.value
  else "summary:auto:" ++ runId.value ++ ":" ++ toString (job.callIndex.getD 0)

/-! ### Places -/

/-- The causes of a commit that `run_claimed` announces itself. -/
inductive CommitCause where
  | initialMessages
  | finalTurn
  | compaction
deriving DecidableEq, Repr

/-- What a run closes for: its final turn, or a manual compaction. -/
inductive Closing where
  | finalTurn
  | compaction
deriving DecidableEq, Repr

/-- The cause of the last commit of the run. -/
def Closing.cause : Closing → CommitCause
  | finalTurn => .finalTurn
  | compaction => .compaction

/-- The events that the engine emits, without their texts and numbers. -/
inductive Announcement where
  | messagesCommitted (cause : CommitCause)
  | cycleInterrupted
  | modelAttemptFailed
  | textDelta
  | usageSnapshot
  | autoCompactionStarted
  | autoCompactionCompleted
deriving DecidableEq, Repr

/-- Whether the event carries a barrier: the run waits until the state is ready. -/
@[simp]
def Announcement.awaitsState : Announcement → Bool
  | messagesCommitted _ => true
  | cycleInterrupted | modelAttemptFailed | textDelta => false
  | usageSnapshot | autoCompactionStarted | autoCompactionCompleted => false

/-- What the batches that are appended came in during, which decides how the run goes on: a model call
that was interrupted or a compaction, a final answer or the wait for subagents, a model call that was
refused, a manual compaction, or the closing of the run. -/
inductive AfterAppend where
  | cycle
  | answer
  | overflow (retention : Retention)
  | replaced
  | closing (closing : Closing)
deriving DecidableEq, Repr

/-- Where the engine is. Two calls of `append_batches` in a row, the first with what was waiting and
the second with the messages of a break, are one call with the batches of both. `background` stands for
`has_background_work` and for the check in the loop that waits for subagents; `truncated` is
`persist_truncated_assistant`, with the message until it is stored. -/
inductive EnginePc where
  | claiming
  | settings
  | collecting (todo pending : List CanonicalMessage)
  | reading (pending : List CanonicalMessage) (delivered : Bool)
  | storing (pending : List CanonicalMessage) (known : List ChainIdentity) (delivered : Bool)
  | round (round : ToolRound) (pc : RoundPc)
  | cycle
  | calling
  | hydrating
  | streaming (pending : List MessageBatch)
  | retrying (pending : List MessageBatch)
  | answering (message : CanonicalMessage) (pending : List MessageBatch)
  | truncated (message : Option CanonicalMessage) (failure : RunFailure)
      (pending : List MessageBatch)
  | background
  | listening
  | compacting (job : CompactionJob)
  | summaryCalling (job : CompactionJob)
  | summarising (job : CompactionJob)
  | replacing (job : CompactionJob)
  | manualReplacing (pending : List MessageBatch)
  | append (pc : AppendPc) (after : AfterAppend)
  | finalizing (closing : Closing)
  | draining (closing : Closing) (accepted : List MessageBatch)
  | announcing (what : Announcement) (after : EnginePc)
  | ended (outcome : RunOutcome) (tries : Nat)
  | finished (outcome : RunOutcome)
deriving DecidableEq, Repr

/-- What an `await` of the engine comes back with: what the functions it calls wait for, or

* `overBudget` — `compaction_estimate` asks for a compaction;
* `answered`, `refused` — the end of a model call, with `summary_needs_expansion`, or with the three
  tests for an overflow together;
* `background` — whether subagents are still running;
* `validated`, `summarised`, `summary` — in a compaction: what `validate_compacted` says, whether the
  summary is asked for again, and the summary with the sizes its replacement is built for. -/
inductive EngineEvent where
  | await (event : Event)
  | overBudget
  | answered (cycle : ModelCycleResult) (short : Bool)
  | refused (failure : ModelCycleFailure) (overLimit : Bool)
  | background (running : Bool)
  | validated (refusal : Option String)
  | summarised (again : Bool)
  | summary (estimates : Estimates) (text : String) (refusal : Option String)

structure EngineState (D : Type) where
  frame : Frame D
  locals : EngineLocals
  pc : EnginePc

namespace EnginePc

/-- `run_claimed` is back with an outcome. -/
def stop (outcome : RunOutcome) : EnginePc := ended outcome 0

/-- `RunOutcome::Failed(error.into())`. -/
def fail (error : Error) : EnginePc := stop (.failed error.failure)

/-- `RunOutcome::Failed(RunFailure::Protocol(message))`. -/
def refuse (message : String) : EnginePc := stop (.failed (.protocol message))

end EnginePc

def lateToolResult (result : ToolResult) (accounted : List String) : Bool :=
  result.callId ∈ accounted

namespace EngineState

/-- The engine goes on at another place. -/
def goto (state : EngineState D) (pc : EnginePc) : EngineState D := { state with pc }

/-- The engine goes on with another store and checkpoint. -/
def committed (state : EngineState D) (store : Store D) (checkpoint : CheckpointId) (pc : EnginePc) :
    EngineState D :=
  { state with frame := { state.frame with store, checkpoint }, pc }

/-- `commands.recv` yields a command. -/
def received (state : EngineState D) (command : RunCommand) (pc : EnginePc) :
    Option (EngineState D) :=
  (state.frame.receive command).map fun frame => { state with frame, pc }

/-- `commands.recv` yields nothing any more. -/
def disconnected (state : EngineState D) : Option (EngineState D) :=
  if state.frame.port.commands = [] then some (state.goto (.stop clientFailure)) else none

/-- `cancellation.cancelled()`. -/
def cancelled (state : EngineState D) : Option (EngineState D) :=
  if state.frame.port.cancelled then some (state.goto (.stop .cancelled)) else none

end EngineState

/-! ### Commands while the model works -/

/-- What the loops around a model call, a retry delay and a summary call do with a command: go on with
the batches that wait, leave with them, or end the run. -/
def onModelCommand (refusal : String) (again broken : List MessageBatch → EnginePc)
    (pending : List MessageBatch) (accounted : List String) : RunCommand → EnginePc
  | .insertMessages batch => again (pending ++ [batch])
  | .breakMessages batch => broken (pending ++ [batch])
  | .cancel => .stop .cancelled
  | .toolResult result =>
    if lateToolResult result accounted then again pending else .refuse refusal

/-- A model call that was interrupted: the batches are appended, and a new cycle starts. -/
def EnginePc.interrupted (batches : List MessageBatch) : EnginePc :=
  .announcing .cycleInterrupted (.append (.next batches false) .cycle)

/-- The commands while the model streams. -/
def onStreamingCommand : List MessageBatch → List String → RunCommand → EnginePc :=
  onModelCommand "received a tool result while the model was running" .streaming .interrupted

/-- The commands while a failed model call waits for its retry. -/
def onRetryCommand : List MessageBatch → List String → RunCommand → EnginePc :=
  onModelCommand "received a tool result while waiting to retry the model" .retrying .interrupted

/-- The commands while a summary is written. -/
def onSummaryCommand (job : CompactionJob) : List String → RunCommand → EnginePc :=
  onModelCommand "received a tool result while automatic compaction was running"
    (fun pending => .summarising { job with pending })
    (fun pending => .replacing { job with pending }) job.pending

/-- The commands while the run waits for its subagents. -/
def onListeningCommand : RunCommand → EnginePc
  | .insertMessages batch | .breakMessages batch => .append (.next [batch] false) .answer
  | .cancel => .stop .cancelled
  | .toolResult _ => .background

/-! ### Initial messages and cycles -/

/-- The tool round that `Resume` takes up. -/
def resumedRound (prepared : PreparedRun) (round : RecoveredToolRound) : ToolRound :=
  { id := ⟨prepared.runId.value ++ ":round:resume"⟩
    assistant := round.assistant
    calls := round.calls
    recoveredStartedAtMs := some round.startedAtMs }

/-- Where the run goes on when its initial messages are stored. -/
def afterInitialMessages (prepared : PreparedRun) : EnginePc :=
  match prepared.action with
  | .resume (some round) => .round (resumedRound prepared round) (.create [])
  | .resume none | .start | .compact | .backgroundCompletion => .cycle

/-- Nothing is left to do: the background completion was delivered before. -/
def EnginePc.delivered : EnginePc :=
  .announcing (.messagesCommitted .initialMessages) (.stop .completed)

/-- The loop over the initial messages. -/
def collect (prepared : PreparedRun) (store : Store D) (pending : List CanonicalMessage) :
    List CanonicalMessage → EnginePc
  | [] => if pending = [] then afterInitialMessages prepared else .reading pending false
  | message :: todo =>
    if prepared.action = .backgroundCompletion ∧
        (store.message? prepared.conversationId message.messageId).isSome then
      if pending = [] then .delivered else .reading pending true
    else .collecting todo (pending ++ [message])

/-- Where the run goes on when a batch of initial messages is committed. -/
def afterStoring (prepared : PreparedRun) (delivered inserted : Bool) : EnginePc :=
  if delivered then .delivered
  else if inserted then
    .announcing (.messagesCommitted .initialMessages) (afterInitialMessages prepared)
  else afterInitialMessages prepared

/-- The head of the loop `'model`. -/
def startCycle (prepared : PreparedRun) (state : EngineState D) (overBudget : Bool) :
    Option (EngineState D) :=
  if state.frame.port.cancelled then some (state.goto (.stop .cancelled))
  else
    match projectMessages state.frame.chain with
    | .error error => some (state.goto (.fail error))
    | .ok _ =>
      if ¬ overBudget then some (state.goto .calling)
      else if prepared.action ≠ .compact ∧ !state.locals.overflow.alreadyCompacted then
        some (state.goto (.announcing .usageSnapshot (.compacting (.start true .window))))
      else none

def beginProviderCall (prepared : PreparedRun) (state : EngineState D) : Except Error EngineLocals :=
  match state.frame.store.runs prepared.runId with
  | some row =>
    if row.status = .running then
      .ok { state.locals with providerCallIndex := state.locals.providerCallIndex + 1 }
    else .error (.store ("run is not active: " ++ prepared.runId.value))
  | none => .error (.store ("run is not active: " ++ prepared.runId.value))

/-- The assistant message of a provider call without tool calls. -/
def answerMessage (prepared : PreparedRun) (locals : EngineLocals) (text thinking : String)
    (replayState : Option ProviderReplayState) : CanonicalMessage :=
  { messageId := prepared.runId.value ++ ":assistant:" ++ toString locals.providerCallIndex
    role := .assistant
    origin := .assistant
    content := .assistant text thinking none replayState []
    runtimeEventId := none }

/-- The round of the calls of a provider call. -/
def calledRound (prepared : PreparedRun) (locals : EngineLocals) (cycle : ModelCycleResult) :
    ToolRound :=
  { id := ⟨prepared.runId.value ++ ":round:" ++ toString locals.providerCallIndex⟩
    assistant := ⟨cycle.text, cycle.reasoning, cycle.modelCallId, cycle.replayState⟩
    calls := cycle.calls
    recoveredStartedAtMs := none }

/-- What the run does with the result of the loop `'attempt`. -/
def afterAttempt (prepared : PreparedRun) (locals : EngineLocals) (cycle : ModelCycleResult)
    (pending : List MessageBatch) : EnginePc :=
  if prepared.action = .compact then
    if cycle.calls ≠ [] then .refuse "compaction model returned tool calls"
    else if trim cycle.text = "" ∧ locals.shortSummary = none then
      .refuse "compaction model returned an empty summary"
    else .announcing .textDelta (.manualReplacing pending)
  else if cycle.calls = [] then
    .answering (answerMessage prepared locals cycle.text cycle.reasoning cycle.replayState) pending
  else .round (calledRound prepared locals cycle) (.create pending)

/-- A model call came to its end. -/
def onAnswer (prepared : PreparedRun) (state : EngineState D) (pending : List MessageBatch)
    (cycle : ModelCycleResult) (short : Bool) : EngineState D :=
  let locals := { state.locals with overflow := ⟨0⟩ }
  if prepared.action = .compact ∧ cycle.calls = [] ∧ locals.shortSummary = none ∧ short then
    { state with
      locals := { locals with shortSummary := some (trim cycle.text) }
      pc := .streaming pending }
  else { state with locals, pc := afterAttempt prepared locals cycle pending }

/-- The first summary, when the call for a more detailed one has failed for good. -/
def fallbackCycle (prepared : PreparedRun) (summary : String) : ModelCycleResult :=
  ⟨prepared.runId.value ++ ":summary-detail-fallback", summary, "", none, []⟩

/-- Where a manual compaction goes on that has a first summary. -/
def summaryFallback (prepared : PreparedRun) (locals : EngineLocals) (pending : List MessageBatch) :
    Option EnginePc :=
  match locals.shortSummary with
  | some summary =>
    if prepared.action = .compact then
      some (afterAttempt prepared locals (fallbackCycle prepared summary) pending)
    else none
  | none => none

/-- A model call has failed for good. -/
def onFinalFailure (prepared : PreparedRun) (locals : EngineLocals) (pending : List MessageBatch)
    (failure : ModelCycleFailure) : EnginePc :=
  match failure.failure with
  | .provider _ =>
    (summaryFallback prepared locals pending).getD (.stop (.failed failure.failure))
  | .truncated _ =>
    (summaryFallback prepared locals pending).getD <|
      if trim failure.partialText = "" then .stop (.failed failure.failure)
      else .truncated (some (answerMessage prepared locals failure.partialText
        failure.partialReasoning failure.replayState)) failure.failure pending
  | .protocol _ | .store _ | .client _ => .stop (.failed failure.failure)

/-- How a compaction is done for a model call that was refused, if one is. -/
def overflowRetention (prepared : PreparedRun) (locals : EngineLocals) (overLimit : Bool) :
    Option Retention :=
  if overLimit = true ∧ prepared.action ≠ .compact then locals.overflow.retention else none

/-- A model call has failed. -/
def onFailure (prepared : PreparedRun) (state : EngineState D) (pending : List MessageBatch)
    (failure : ModelCycleFailure) (overLimit : Bool) : EngineState D :=
  if state.frame.port.cancelled then state.goto (.stop .cancelled)
  else
    match overflowRetention prepared state.locals overLimit with
    | some retention =>
      { state with
        locals := { state.locals with overflow := state.locals.overflow.providerRefused }
        pc := .append (.next pending false) (.overflow retention) }
    | none =>
      if shouldRetry failure state.locals.retries then
        { state with
          locals := { state.locals with retries := state.locals.retries + 1 }
          pc := .announcing .modelAttemptFailed (.retrying pending) }
      else state.goto (onFinalFailure prepared state.locals pending failure)

/-! ### Compactions -/

/-- The messages that a compaction of the run may summarise. -/
def Frame.compactable (frame : Frame D) (prepared : PreparedRun) : List CanonicalMessage :=
  (partition frame.chain (prepared.initialMessages.map (·.messageId))).1

/-- The beginning of `auto_compact`. The second step of an overflow uses the summary that is there. -/
def startCompaction (prepared : PreparedRun) (frame : Frame D) (job : CompactionJob)
    (refusal : Option String) : EnginePc :=
  match projectMessages frame.chain with
  | .error error => .fail error
  | .ok _ =>
    if frame.compactable prepared = [] then
      .refuse (refusal.getD
        "context overflow after compaction: no conversation history can be compacted")
    else .announcing .autoCompactionStarted <|
      if job.retention = .none ∧ ((latestSummaryMessage frame.chain).bind summaryText).isSome then
        .replacing { job with reused := true }
      else .summaryCalling job

/-- The end of `auto_compact`, when the replacement is committed. -/
def afterReplacement (job : CompactionJob) : EnginePc :=
  .announcing (.messagesCommitted .compaction) <| .announcing .autoCompactionCompleted <|
    .announcing .usageSnapshot <| .append (.next job.pending false) .cycle

/-- `replace_checkpoint` of an automatic compaction. -/
def replaceAutomatically (prepared : PreparedRun) (state : EngineState D) (job : CompactionJob)
    (estimates : Estimates) (text : String) (refusal : Option String) : EngineState D :=
  let replaced : Except Error (CheckpointId × Store D) := do
    let summary := summaryMessage (job.eventId prepared.runId state.frame.checkpoint) text
    let messages ← replacement estimates prepared state.frame.chain summary job.retention
    let _ ← projectMessages messages
    match refusal with
    | some message => .error (.protocol message)
    | none =>
      Store.replaceCheckpoint prepared.conversationId prepared.runId state.frame.checkpoint
        messages state.frame.store
  match replaced with
  | .error error => state.goto (.fail error)
  | .ok (checkpoint, store) =>
    let overflow := if job.preflight then state.locals.overflow.preflightCompacted
      else state.locals.overflow
    { (state.committed store checkpoint (afterReplacement job)) with
      locals := { state.locals with overflow } }

/-- `replace_checkpoint` of a manual compaction. -/
def replaceManually (prepared : PreparedRun) (state : EngineState D) (pending : List MessageBatch)
    (estimates : Estimates) (text : String) : EngineState D :=
  let replaced : Except Error (CheckpointId × Store D) := do
    let summary := summaryMessage ("summary:" ++ prepared.runId.value) text
    let messages ← replacement estimates prepared state.frame.chain summary .window
    Store.replaceCheckpoint prepared.conversationId prepared.runId state.frame.checkpoint messages
      state.frame.store
  match replaced with
  | .error error => state.goto (.fail error)
  | .ok (checkpoint, store) =>
    state.committed store checkpoint <|
      if pending = [] then .finalizing .compaction else .append (.next pending false) .replaced

/-! ### The end of the run -/

/-- The batches are appended. A run that was closing for its final turn is running again. -/
def onAppended (state : EngineState D) (after : AfterAppend) (inserted : Bool) : EngineState D :=
  match after with
  | .cycle => state.goto .cycle
  | .answer => state.goto (if inserted then .cycle else .background)
  | .overflow retention => state.goto (.compacting (.start false retention))
  | .replaced => state.goto (.finalizing .compaction)
  | .closing .finalTurn =>
    { state with
      frame := { state.frame with port := state.frame.port.resumeRunning }
      pc := .cycle }
  | .closing .compaction =>
    state.goto (.announcing (.messagesCommitted .compaction) (.stop .completed))

/-- The status and the failure that `finish_run` is called with, at the third try a bare failure. -/
def finalStatus (outcome : RunOutcome) (tries : Nat) : RunStatus × Option (String × String) :=
  if 2 ≤ tries then (.failed, none)
  else
    match outcome with
    | .completed => (.completed, none)
    | .cancelled => (.cancelled, none)
    | .failed (.protocol message) => (.failed, some ("protocol", message))
    | .failed (.provider message) => (.failed, some ("provider", message))
    | .failed (.truncated message) => (.failed, some ("provider", message))
    | .failed (.store message) => (.failed, some ("store", message))
    | .failed (.client message) => (.failed, some ("client", message))

/-- The run has finished: its port is gone. -/
def EngineState.finish (state : EngineState D) (store : Store D) (outcome : RunOutcome) :
    EngineState D :=
  { state with
    frame := { state.frame with store, port := state.frame.port.finish }
    pc := .finished outcome }

/-- A try of `finish_run` has failed. -/
def onFinishFailed (state : EngineState D) (outcome : RunOutcome) (tries : Nat) : EngineState D :=
  if tries < 2 then state.goto (.ended outcome (tries + 1))
  else state.finish state.frame.store outcome

/-! ### Steps -/

/-- `append_checkpoint` with one message of the assistant. -/
def EngineState.appendAnswer (prepared : PreparedRun) (state : EngineState D)
    (message : CanonicalMessage) (after : EnginePc) : EngineState D :=
  match Store.appendCheckpoint prepared.conversationId prepared.runId state.frame.checkpoint [message]
      state.frame.store with
  | .ok (checkpoint, store) => state.committed store checkpoint after
  | .error error => state.goto (.fail error)

/-- Where the engine is after a step of a function it calls. -/
def EngineState.within {pc ρ : Type} (state : EngineState D) (inside : pc → EnginePc)
    (back : EngineState D → ρ → EngineState D) (result : Frame D × Progress pc ρ) : EngineState D :=
  let state := { state with frame := result.1 }
  match result.2 with
  | .onward pc => state.goto (inside pc)
  | .returned value => back state value
  | .stopped outcome => state.goto (.stop outcome)

/-- A step that waits for something else than a command. -/
def EngineState.stepAlone (prepared : PreparedRun) (nowMs : Int) (state : EngineState D) :
    EnginePc → EngineEvent → Option (EngineState D)
  | .claiming, .await .proceed =>
    match Store.claimRun prepared nowMs state.frame.store with
    | .ok (claimed, store) => some (state.committed store claimed.headCheckpointId .settings)
    | .error error => some (state.finish state.frame.store (.failed error.failure))
  | .claiming, .await (.storeFailed error) =>
    some (state.finish state.frame.store (.failed error.failure))
  | .settings, .await .proceed => some (state.goto (.collecting prepared.initialMessages []))
  | .collecting todo pending, .await .proceed =>
    some (state.goto (collect prepared state.frame.store pending todo))
  | .reading pending delivered, .await .proceed =>
    let known := state.frame.store.chainIdentities prepared.conversationId state.frame.checkpoint
    some (state.goto (.storing pending known delivered))
  | .storing pending known delivered, .await .proceed =>
    match Store.appendMessagesOnce prepared.conversationId prepared.runId state.frame.checkpoint known
        pending state.frame.store with
    | .ok (appended, store) =>
      let checkpoint := (appended.getLast?.map (·.1)).getD state.frame.checkpoint
      some (state.committed store checkpoint
        (afterStoring prepared delivered (appended.any (·.2))))
    | .error error => some (state.goto (.fail error))
  | .cycle, .await .proceed => startCycle prepared state false
  | .cycle, .overBudget => startCycle prepared state true
  | .calling, .await .proceed =>
    match beginProviderCall prepared state with
    | .ok locals => some { state with locals := { locals with retries := 0 }, pc := .hydrating }
    | .error error => some (state.goto (.fail error))
  | .hydrating, .await .proceed => some (state.goto (.streaming []))
  | .answering message pending, .await .proceed =>
    some (state.appendAnswer prepared message
      (if pending = [] then .background else .append (.next pending false) .answer))
  | .truncated (some message) failure pending, .await .proceed =>
    some (state.appendAnswer prepared message (.truncated none failure pending))
  | .background, .background running =>
    some (state.goto (if running then .listening else .finalizing .finalTurn))
  | .compacting job, .validated refusal =>
    some (state.goto (startCompaction prepared state.frame job refusal))
  | .summaryCalling job, .await .proceed =>
    match beginProviderCall prepared state, projectMessages (state.frame.compactable prepared) with
    | .error error, _ => some (state.goto (.fail error))
    | .ok locals, .error error => some { state with locals, pc := .fail error }
    | .ok locals, .ok _ =>
      let callIndex := job.callIndex.getD locals.providerCallIndex
      some { state with
        locals
        pc := .summarising { job with attempts := job.attempts + 1, callIndex := some callIndex } }
  | .replacing job, .summary estimates text refusal =>
    some (replaceAutomatically prepared state job estimates text refusal)
  | .manualReplacing pending, .summary estimates text _ =>
    some (replaceManually prepared state pending estimates text)
  | .finalizing closing, .await .proceed =>
    some { state with
      frame := { state.frame with port := state.frame.port.beginFinalizing }
      pc := .draining closing [] }
  | .ended outcome tries, .await .proceed =>
    match Store.finishRun prepared.runId (finalStatus outcome tries).1 (finalStatus outcome tries).2
        state.frame.store with
    | .ok (_, store) => some (state.finish store outcome)
    | .error _ => some (onFinishFailed state outcome tries)
  | .ended outcome tries, .await (.storeFailed _) => some (onFinishFailed state outcome tries)
  -- the places that wait for the store alone
  | .settings, .await (.storeFailed error) | .reading _ _, .await (.storeFailed error)
  | .storing _ _ _, .await (.storeFailed error) | .cycle, .await (.storeFailed error)
  | .calling, .await (.storeFailed error) | .hydrating, .await (.storeFailed error)
  | .answering _ _, .await (.storeFailed error)
  | .truncated (some _) _ _, .await (.storeFailed error)
  | .compacting _, .await (.storeFailed error) | .summaryCalling _, .await (.storeFailed error)
  | .replacing _, .await (.storeFailed error) | .manualReplacing _, .await (.storeFailed error) =>
    some (state.goto (.fail error))
  | .collecting (_ :: _) _, .await (.storeFailed error) =>
    if prepared.action = .backgroundCompletion then some (state.goto (.fail error)) else none
  | _, _ => none

/-- A step of a loop that receives commands. -/
def EngineState.stepReceiving (prepared : PreparedRun) (state : EngineState D) :
    EnginePc → EngineEvent → Option (EngineState D)
  | .streaming pending, .await (.receive command) =>
    state.received command (onStreamingCommand pending state.frame.accounted command)
  | .streaming _, .await .disconnected => state.disconnected
  | .streaming pending, .answered cycle short => some (onAnswer prepared state pending cycle short)
  | .streaming pending, .refused failure overLimit =>
    some (onFailure prepared state pending failure overLimit)
  | .retrying pending, .await (.receive command) =>
    state.received command (onRetryCommand pending state.frame.accounted command)
  | .retrying _, .await .disconnected => state.disconnected
  | .retrying _, .await .cancelled => state.cancelled
  | .retrying pending, .await .elapsed => some (state.goto (.streaming pending))
  | .summarising job, .await (.receive command) =>
    state.received command (onSummaryCommand job state.frame.accounted command)
  | .summarising _, .await .disconnected => state.disconnected
  | .summarising job, .summarised again =>
    some (state.goto (if again ∧ job.attempts < 2 then .summaryCalling job else .replacing job))
  | .listening, .await (.receive command) => state.received command (onListeningCommand command)
  | .listening, .await .disconnected => state.disconnected
  | .listening, .await .cancelled => state.cancelled
  | .listening, .await .elapsed => some (state.goto .background)
  | .listening, .await .clientClosed => some (state.goto (.stop clientFailure))
  | _, _ => none

/-- A step of a function that the engine calls. -/
def EngineState.stepInside (prepared : PreparedRun) (nowMs : Int) (state : EngineState D) :
    EnginePc → Event → Option (EngineState D)
  | .round round pc, event =>
    (pc.step prepared nowMs round state.frame event).map
      (state.within (.round round) fun state () => state.goto .cycle)
  | .append pc after, event =>
    (pc.step prepared state.frame event).map
      (state.within (.append · after) fun state inserted => onAppended state after inserted)
  | .draining closing accepted, event =>
    (drainAccepted state.frame accepted event).map
      (state.within (.draining closing) fun state batches => state.goto <|
        if batches = [] then .announcing (.messagesCommitted closing.cause) (.stop .completed)
        else .append (.next batches false) (.closing closing))
  | .announcing what after, event =>
    (state.frame.announced what.awaitsState (.returned ()) event).map
      (state.within (fun pc : Empty => nomatch pc) fun state () => state.goto after)
  | .truncated none failure _, event =>
    (state.frame.announced true (.returned ()) event).map
      (state.within (fun pc : Empty => nomatch pc) fun state () => state.goto (.stop (.failed failure)))
  | _, _ => none

/-- A step of the engine. -/
def EngineState.step (prepared : PreparedRun) (nowMs : Int) (state : EngineState D)
    (event : EngineEvent) : Option (EngineState D) :=
  match state.pc, event with
  | .round _ _, .await event | .append _ _, .await event | .draining _ _, .await event
  | .announcing _ _, .await event | .truncated none _ _, .await event =>
    state.stepInside prepared nowMs state.pc event
  | .streaming _, event | .retrying _, event | .summarising _, event | .listening, event =>
    state.stepReceiving prepared state.pc event
  | _, event => state.stepAlone prepared nowMs state.pc event

/-! ### The system -/

/-- What happens: the run takes a step, or somebody uses its handle, or the store. -/
inductive EngineLabel where
  | code (nowMs : Int) (event : EngineEvent)
  | submit (eventId : String) (messages : List CanonicalMessage) (shouldBreak : Bool)
  | toolResult (result : ToolResult)
  | cancel
  | store (operation : Operation)

/-- The steps. Nobody else commits in the name of the run. -/
inductive EngineStep (prepared : PreparedRun) :
    EngineState D → EngineLabel → EngineState D → Prop
  | code {state next : EngineState D} {nowMs : Int} {event : EngineEvent}
      (stepped : state.step prepared nowMs event = some next) :
      EngineStep prepared state (.code nowMs event) next
  | submit {state : EngineState D} {eventId : String} {messages : List CanonicalMessage}
      {shouldBreak : Bool} :
      EngineStep prepared state (.submit eventId messages shouldBreak)
        { state with frame := { state.frame with
            port := (state.frame.port.submitMessages eventId messages shouldBreak).2 } }
  | toolResult {state : EngineState D} {result : ToolResult} :
      EngineStep prepared state (.toolResult result)
        { state with frame := { state.frame with port := (state.frame.port.toolResult result).2 } }
  | cancel {state : EngineState D} :
      EngineStep prepared state .cancel
        { state with frame := { state.frame with port := state.frame.port.cancel } }
  | store {state : EngineState D} {operation : Operation}
      (foreign : ¬ operation.CommitOf prepared.runId) :
      EngineStep prepared state (.store operation)
        { state with frame := { state.frame with store := operation.apply state.frame.store } }

/-- A run that is about to claim its conversation. -/
structure EngineStart (state : EngineState D) : Prop where
  reachable : (storeSystem D).Reachable state.frame.store
  port : state.frame.port = .new
  accounted : state.frame.accounted = []
  locals : state.locals = ⟨0, ⟨0⟩, 0, none⟩
  pc : state.pc = .claiming

/-- One run. -/
def engineSystem (D : Type) [DecidableEq D] [ChainHash D] (prepared : PreparedRun) :
    System (EngineState D) EngineLabel where
  initial := EngineStart
  step := EngineStep prepared

end Byok
