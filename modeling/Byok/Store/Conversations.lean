/-
**Conversations and who may write to them.** `server/src/store/conversations.rs`.
-/

import Byok.Store.Messages

set_option linter.unusedSectionVars false

namespace Byok

open Library Transaction

variable {D : Type} [DecidableEq D]

namespace Store

/-- The checkpoint of the conversation that has the digest, if there is one. -/
def checkpointByDigest (store : Store D) (conversationId : ConversationId) (digest : D) :
    Option CheckpointId :=
  (store.checkpoints.find? fun row =>
    row.conversationId = conversationId && row.stateDigest = digest).map (·.checkpointId)

/-- The `INSERT`s of one checkpoint, with the constraints `UNIQUE (conversation_id, state_digest)`
and `UNIQUE (checkpoint_id, message_id)`. -/
def insertCheckpointStatement (conversationId : ConversationId) (parent : Option CheckpointId)
    (digest : D) (messageIds : List String) : StoreTransaction D CheckpointId := do
  let existing ← read (·.checkpointByDigest conversationId digest)
  require (existing = none) .database
  require messageIds.Nodup .database
  let rowid ← read (·.nextCheckpointId)
  write (insertCheckpointRow conversationId parent digest messageIds)
  pure ⟨rowid⟩

/-- `INSERT OR IGNORE INTO conversations`. -/
def insertOrIgnoreConversation (conversationId : ConversationId) (store : Store D) : Store D :=
  match store.conversations conversationId with
  | none => insertConversation conversationId ⟨none, none⟩ store
  | some _ => store

/-- `ensure_conversation_tx`. -/
def ensureConversation [ChainHash D] (conversationId : ConversationId) :
    StoreTransaction D CheckpointId := do
  write (insertOrIgnoreConversation conversationId)
  let current ← read fun store =>
    (store.conversations conversationId).bind (·.currentCheckpointId)
  match current with
  | some current => pure current
  | none => do
      let root ← insertCheckpointStatement conversationId none rootDigest []
      write (updateConversation conversationId fun row =>
        { row with currentCheckpointId := row.currentCheckpointId.or (some root) })
      pure root

/-- `require_active_head_tx`. -/
def requireActiveHead (conversationId : ConversationId) (runId : RunId) (expected : CheckpointId) :
    StoreTransaction D Unit := do
  let row ← read (·.conversations conversationId)
  require ((row.bind (·.currentCheckpointId)) = some expected ∧
      (row.bind (·.activeRunId)) = some runId)
    (.store ("run " ++ runId.value ++ " no longer owns conversation " ++ conversationId.value ++
      " at checkpoint " ++ toString expected.value))

/-- A new conversation: its row, its root checkpoint, and the root as its current checkpoint. -/
@[simps!]
def createConversation [ChainHash D] (conversationId : ConversationId) (store : Store D) : Store D :=
  insertConversation conversationId
    ⟨some ⟨store.nextCheckpointId⟩, (store.conversations conversationId).bind (·.activeRunId)⟩
    (insertCheckpointRow conversationId none rootDigest [] store)

/-! ### What the statements do -/

section Specs

variable {store after : Store D} {conversationId : ConversationId}

theorem checkpointByDigest_eq_none {digest : D} :
    store.checkpointByDigest conversationId digest = none ↔
      ∀ row ∈ store.checkpoints, row.conversationId = conversationId → row.stateDigest ≠ digest := by
  simp [checkpointByDigest]

theorem checkpointByDigest_eq_some {digest : D} {checkpointId : CheckpointId}
    (found : store.checkpointByDigest conversationId digest = some checkpointId) :
    ∃ row ∈ store.checkpoints, row.checkpointId = checkpointId ∧
      row.conversationId = conversationId ∧ row.stateDigest = digest := by
  obtain ⟨row, selected, rfl⟩ := Option.map_eq_some_iff.mp found
  refine ⟨row, List.mem_of_find?_eq_some selected, rfl, ?_⟩
  simpa using List.find?_some selected

theorem insertCheckpointStatement_ok {parent : Option CheckpointId} {digest : D}
    {messageIds : List String} {checkpointId : CheckpointId}
    (ran : insertCheckpointStatement conversationId parent digest messageIds store =
      .ok (checkpointId, after)) :
    checkpointId = ⟨store.nextCheckpointId⟩ ∧
      after = insertCheckpointRow conversationId parent digest messageIds store ∧
      messageIds.Nodup ∧ store.checkpointByDigest conversationId digest = none := by
  replace ran := read_bind_ok.mp ran
  obtain ⟨unused, ran⟩ := require_bind_ok.mp ran
  obtain ⟨distinct, ran⟩ := require_bind_ok.mp ran
  replace ran := read_bind_ok.mp ran
  replace ran := write_bind_ok.mp ran
  obtain ⟨rfl, rfl⟩ := pure_ok.mp ran
  exact ⟨rfl, rfl, distinct, unused⟩

theorem requireActiveHead_ok {runId : RunId} {expected : CheckpointId} {done : Unit}
    (ran : requireActiveHead conversationId runId expected store = .ok (done, after)) :
    store.conversations conversationId = some ⟨some expected, some runId⟩ ∧ store = after := by
  replace ran := read_bind_ok.mp ran
  obtain ⟨⟨current, active⟩, rfl⟩ := require_ok.mp ran
  obtain ⟨row, found, current⟩ := Option.bind_eq_some_iff.mp current
  rw [found, Option.bind_some] at active
  rw [found]
  obtain ⟨rowCurrent, rowActive⟩ := row
  exact ⟨by rw [← current, ← active], rfl⟩

theorem ensureConversation_ok [ChainHash D] {current : CheckpointId}
    (ran : ensureConversation conversationId store = .ok (current, after)) :
    ((store.conversations conversationId).bind (·.currentCheckpointId) = some current ∧
      store = after) ∨
    ((store.conversations conversationId).bind (·.currentCheckpointId) = none ∧
      current = ⟨store.nextCheckpointId⟩ ∧
      store.checkpointByDigest conversationId rootDigest = none ∧
      after = createConversation conversationId store) := by
  obtain ⟨_, between, wrote, ran⟩ := bind_ok.mp ran
  obtain ⟨found, _, look, ran⟩ := bind_ok.mp ran
  obtain ⟨current, rfl⟩ := read_ok.mp look
  have row := write_ok.mp wrote
  cases found with
  | some found =>
    obtain ⟨rfl, rfl⟩ := pure_ok.mp ran
    -- a row that was just inserted has no current checkpoint
    cases known : store.conversations conversationId with
    | none => simp [row, insertOrIgnoreConversation, known, insertConversation] at current
    | some known =>
      obtain rfl : between = store := by simp [row, insertOrIgnoreConversation, known]
      rw [known] at current
      exact .inl ⟨current.symm, rfl⟩
  | none =>
    obtain ⟨root, _, created, ran⟩ := bind_ok.mp ran
    obtain ⟨rfl, rfl, -, unused⟩ := insertCheckpointStatement_ok created
    replace ran := write_bind_ok.mp ran
    obtain ⟨rfl, rfl⟩ := pure_ok.mp ran
    refine .inr ?_
    cases known : store.conversations conversationId with
    | none =>
      subst row
      refine ⟨rfl, ?_, ?_, ?_⟩
      · simp [insertOrIgnoreConversation, known, insertConversation]
      · simp only [insertOrIgnoreConversation, known, insertConversation] at unused
        exact unused
      · simp [insertOrIgnoreConversation, known, insertConversation, createConversation,
          insertCheckpointRow, updateConversation]
    | some row' =>
      obtain rfl : between = store := by simp [row, insertOrIgnoreConversation, known]
      rw [known, Option.bind_some] at current
      refine ⟨current.symm, rfl, unused, ?_⟩
      simp [updateConversation, insertCheckpointRow, createConversation, insertConversation, known,
        ← current]

end Specs

end Store

end Byok
