/-
**A prepared run.** `server/src/model/run.rs`: what an execution is started with.
-/

import Byok.Model.Message

namespace Byok

/-- A tool round that an earlier process left behind. -/
structure RecoveredToolRound where
  assistant : ToolRoundAssistant
  calls : List ToolCall
  startedAtMs : Nat
deriving DecidableEq, Repr

inductive RunAction where
  | start
  | compact
  | resume (pendingToolRound : Option RecoveredToolRound)
  | backgroundCompletion
deriving DecidableEq, Repr

structure PreparedRun where
  runId : RunId
  conversationId : ConversationId
  initialMessages : List CanonicalMessage
  action : RunAction
  baseCheckpointId : CheckpointId
deriving DecidableEq, Repr

end Byok
