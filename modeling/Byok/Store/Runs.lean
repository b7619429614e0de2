/-
**Who runs.** `server/src/store/runs.rs`: a run claims its conversation, finishes, or is found
interrupted by a later process. The rows of `llm_calls` and of the traces, which the same
transactions settle, are not part of the model.
-/

import Byok.Model.Run
import Byok.Store.Checkpoints

namespace Byok

open Library Transaction

variable {D : Type} [DecidableEq D] [ChainHash D]

def interruptedByProcessExit : String := "interrupted by process exit"

structure ClaimedRun where
  runId : RunId
  conversationId : ConversationId
  headCheckpointId : CheckpointId
  replacedRunId : Option RunId
deriving DecidableEq, Repr

/-- `UPDATE runs SET status = 'cancelled' WHERE run_id = ? AND status = 'running'`. -/
def RunRow.cancel (row : RunRow) : RunRow :=
  if row.status = .running then { row with status := .cancelled } else row

/-- `UPDATE runs SET status = ?, failure_category = ?, failure_summary = ?
WHERE run_id = ? AND status = 'running'`. -/
def RunRow.finish (row : RunRow) (status : RunStatus) (failure : Option (String × String)) : RunRow :=
  if row.status = .running then
    { row with
      status
      failureCategory := failure.map (·.1)
      failureSummary := failure.map (·.2) }
  else row

/-- The row is one that an earlier process left running. -/
def RunRow.interrupted (row : RunRow) (processStartedAtMs : Int) : Bool :=
  row.status = .running && row.createdAtMs < processStartedAtMs

/-- `UPDATE runs SET status = 'failed', failure_category = 'interrupted', failure_summary = ?`. -/
def RunRow.interrupt (row : RunRow) (processStartedAtMs : Int) : RunRow :=
  if row.interrupted processStartedAtMs then
    { row with
      status := .failed
      failureCategory := some "interrupted"
      failureSummary := some interruptedByProcessExit }
  else row

namespace Store

/-- The active run that a claim replaces. -/
def replacedBy (store : Store D) (prepared : PreparedRun) : Option RunId :=
  match (store.conversations prepared.conversationId).bind (·.activeRunId) with
  | none => none
  | some replaced => if replaced = prepared.runId then none else some replaced

/-- The run that a claim replaces is cancelled, when it is still running. -/
def cancelReplaced (prepared : PreparedRun) (store : Store D) : Store D :=
  match store.replacedBy prepared with
  | none => store
  | some replaced => updateRun replaced RunRow.cancel store

/-- The row of a run that has just claimed its conversation. -/
def claimedRow (prepared : PreparedRun) (nowMs : Int) : RunRow :=
  { conversationId := prepared.conversationId
    baseCheckpointId := prepared.baseCheckpointId
    headCheckpointId := prepared.baseCheckpointId
    status := .running
    failureCategory := none
    failureSummary := none
    createdAtMs := nowMs }

/-- The rows that a claim leaves: the run it replaces is cancelled, the new run is running at its
base, and the conversation is its. -/
def claim (prepared : PreparedRun) (nowMs : Int) (store : Store D) : Store D :=
  insertConversation prepared.conversationId
    ⟨some prepared.baseCheckpointId, some prepared.runId⟩
    (insertRun prepared.runId (claimedRow prepared nowMs) (cancelReplaced prepared store))

/-- `claim_run`. The primary key of `runs` keeps a run from being claimed twice. -/
def claimRun (prepared : PreparedRun) (nowMs : Int) : StoreTransaction D ClaimedRun := do
  let _ ← ensureConversation prepared.conversationId
  let base ← read (·.checkpoint? prepared.baseCheckpointId)
  require ((base.map (·.conversationId)) = some prepared.conversationId)
    (.store ("base checkpoint " ++ toString prepared.baseCheckpointId.value ++
      " does not belong to conversation " ++ prepared.conversationId.value))
  let replaced ← read (·.replacedBy prepared)
  let existing ← read (·.runs prepared.runId)
  require (existing = none) .database
  write (claim prepared nowMs)
  pure ⟨prepared.runId, prepared.conversationId, prepared.baseCheckpointId, replaced⟩

/-- The conversation is released by a run: `UPDATE conversations SET active_run_id = NULL
WHERE conversation_id = ? AND active_run_id = ?`. -/
@[simps!]
def release (conversationId : ConversationId) (runId : RunId) (store : Store D) : Store D :=
  updateConversation conversationId
    (fun row => if row.activeRunId = some runId then { row with activeRunId := none } else row) store

/-- `finish_run`: whether the run was the active one. -/
def finishRun (runId : RunId) (status : RunStatus) (failure : Option (String × String)) :
    StoreTransaction D Bool := do
  let found ← read (·.runs runId)
  let row ← orFail found (.runNotFound runId.value)
  let terminal := if row.status = .running then status else row.status
  write (updateRun runId (·.finish status failure))
  require (terminal ≠ .running)
    (.store ("cannot finish LLM calls for non-terminal Run status: " ++ terminal.asStr))
  let active ← read fun store => (store.conversations row.conversationId).bind (·.activeRunId)
  write (release row.conversationId runId)
  pure (active = some runId)

/-- The row a conversation is left with when `reconcile_interrupted_runs` finds its active run
among the interrupted ones. -/
def reconciledConversation (store : Store D) (processStartedAtMs : Int) (row : ConversationRow) :
    ConversationRow :=
  match row.activeRunId with
  | none => row
  | some runId =>
    if (store.runs runId).any (·.interrupted processStartedAtMs) then { row with activeRunId := none }
    else row

/-- `reconcile_interrupted_runs`, without the count of rows it reports. -/
@[simps!]
def reconcile (processStartedAtMs : Int) (store : Store D) : Store D :=
  { store with
    conversations := fun conversationId =>
      (store.conversations conversationId).map (store.reconciledConversation processStartedAtMs)
    runs := fun runId => (store.runs runId).map (·.interrupt processStartedAtMs) }

def reconcileInterruptedRuns (processStartedAtMs : Int) : StoreTransaction D Unit :=
  write (reconcile processStartedAtMs)

end Store

end Byok
