/-
**What a transaction may do to the database.**

`Writes` lists the changes that the operations of the store are made of, each with what was checked
before it, and `WellFormed` is the invariant that every one of them keeps (`WellFormed.write`). An
invariant of the store needs a look at these changes only, not at the operations.

* `Chained` — the checkpoints of the store: a tree for each conversation, digests chained from the
  root, every message id resolved.
* `Owned` — the active run of a conversation and the running runs are the same thing.
* `Extends` — the order in which the store grows: messages and checkpoints are never changed.
-/

import Byok.Store.ToolRounds

namespace Byok

open Library Transaction

variable {D : Type} [DecidableEq D] [ChainHash D]

namespace Store

/-- One change of the database, with what the operation has checked before it. -/
inductive Writes : Store D → Store D → Prop
  | createConversation {store : Store D} (conversationId : ConversationId)
      (absent : (store.conversations conversationId).bind (·.currentCheckpointId) = none)
      (unused : store.checkpointByDigest conversationId rootDigest = none) :
      Writes store (createConversation conversationId store)
  | insertMessage {store : Store D} (conversationId : ConversationId) (message : CanonicalMessage)
      (free : ∀ row ∈ store.messages, row.blocks conversationId message = false) :
      Writes store (insertMessage conversationId message store)
  | insertCheckpoint {store : Store D} (above : CheckpointRow D) (additions : List CanonicalMessage)
      (member : above ∈ store.checkpoints)
      (stored : ∀ message ∈ additions, ⟨above.conversationId, message.payload⟩ ∈ store.messages)
      (distinct : (additions.map (·.messageId)).Nodup)
      (unused : store.checkpointByDigest above.conversationId
        (chainedDigest above.stateDigest additions) = none) :
      Writes store (insertCheckpointRow above.conversationId (some above.checkpointId)
        (chainedDigest above.stateDigest additions) (additions.map (·.messageId)) store)
  | advance {store : Store D} (row : CheckpointRow D) (runId : RunId) (expected : CheckpointId)
      (owner : store.conversations row.conversationId = some ⟨some expected, some runId⟩)
      (member : row ∈ store.checkpoints) :
      Writes store (advance row.conversationId runId row.checkpointId store)
  | claim {store : Store D} (prepared : PreparedRun) (nowMs : Int) (base : CheckpointRow D)
      (member : base ∈ store.checkpoints) (named : base.checkpointId = prepared.baseCheckpointId)
      (belongs : base.conversationId = prepared.conversationId)
      (fresh : store.runs prepared.runId = none) :
      Writes store (claim prepared nowMs store)
  | finish {store : Store D} (runId : RunId) (row : RunRow) (status : RunStatus)
      (failure : Option (String × String)) (found : store.runs runId = some row)
      (terminal : row.status = .running → status ≠ .running) :
      Writes store (release row.conversationId runId
        (updateRun runId (·.finish status failure) store))
  | reconcile {store : Store D} (processStartedAtMs : Int) :
      Writes store (reconcile processStartedAtMs store)
  | toolRounds {store : Store D} (rounds : ToolRoundId → Option ToolRoundRow) :
      Writes store { store with toolRounds := rounds }

/-! ### The invariant -/

/-- The row of a checkpoint and its path are as `insert_checkpoint_tx` builds them. -/
structure Chained (store : Store D) : Prop where
  grown : Grown CheckpointRow.checkpointId CheckpointRow.parentCheckpointId store.checkpoints
  bounded : ∀ row ∈ store.checkpoints, row.checkpointId.value < store.nextCheckpointId
  linked : ∀ row ∈ store.checkpoints, ∀ parent ∈ row.parentCheckpointId,
    ∃ above ∈ store.checkpoints, above.checkpointId = parent ∧
      above.conversationId = row.conversationId ∧
      above.checkpointId.value < row.checkpointId.value ∧
      row.stateDigest = chainedDigest above.stateDigest (store.additions row)
  rooted : ∀ row ∈ store.checkpoints, row.parentCheckpointId = none →
    row.stateDigest = rootDigest ∧ row.messageIds = []
  stored : ∀ row ∈ store.checkpoints, ∀ messageId ∈ row.messageIds,
    ∃ message, store.message? row.conversationId messageId = some message
  distinct : ∀ row ∈ store.checkpoints, row.messageIds.Nodup
  messages : store.messages.Pairwise fun first second =>
    first.blocks second.conversationId second.message = false
  digests : store.checkpoints.Pairwise fun first second =>
    first.conversationId = second.conversationId → first.stateDigest ≠ second.stateDigest
  home : ∀ row ∈ store.checkpoints, (store.conversations row.conversationId).isSome
  root : ∀ conversationId, (store.conversations conversationId).isSome →
    ∃ row ∈ store.checkpoints, row.conversationId = conversationId ∧ row.parentCheckpointId = none

/-- The checkpoint is one of the conversation. -/
def Belongs (store : Store D) (checkpointId : CheckpointId) (conversationId : ConversationId) : Prop :=
  ∃ row ∈ store.checkpoints, row.checkpointId = checkpointId ∧ row.conversationId = conversationId

/-- Who owns a conversation: its active run, which is running and whose head is the conversation's
current checkpoint. -/
structure Owned (store : Store D) : Prop where
  current : ∀ conversationId row, store.conversations conversationId = some row →
    ∃ checkpointId, row.currentCheckpointId = some checkpointId ∧
      store.Belongs checkpointId conversationId
  active : ∀ conversationId row runId, store.conversations conversationId = some row →
    row.activeRunId = some runId →
    ∃ run, store.runs runId = some run ∧ run.status = .running ∧
      run.conversationId = conversationId ∧ row.currentCheckpointId = some run.headCheckpointId
  running : ∀ runId run, store.runs runId = some run → run.status = .running →
    ∃ row, store.conversations run.conversationId = some row ∧ row.activeRunId = some runId
  head : ∀ runId run, store.runs runId = some run →
    store.Belongs run.headCheckpointId run.conversationId

structure WellFormed (store : Store D) : Prop where
  chained : store.Chained
  owned : store.Owned

/-- The store has only grown: its messages and checkpoints are still there, in the same order. -/
structure Extends (store after : Store D) : Prop where
  messages : store.messages <+: after.messages
  checkpoints : store.checkpoints <+: after.checkpoints
  nextCheckpointId : store.nextCheckpointId ≤ after.nextCheckpointId

end Store

end Byok
