/-
**What the others leave to a run.**

An operation that is not a commit of a run leaves it where it is: the head in its row does not move,
and the rows of its tool rounds stay as they are (`foreign_leaves`). Its status and everything else
may change: another run may claim the conversation at any time.
-/

import Byok.Store.Isolation

set_option linter.unusedSectionVars false

namespace Byok

open Library Transaction Store

variable {D : Type} [DecidableEq D] [ChainHash D]

/-- The row keeps its conversation and its head. -/
def RunRow.Stays (row later : RunRow) : Prop :=
  later.conversationId = row.conversationId ∧ later.headCheckpointId = row.headCheckpointId

/-- What `after` keeps of a run: its head, and its tool rounds. -/
structure Leaves (runId : RunId) (store after : Store D) : Prop where
  head : ∀ row, store.runs runId = some row → ∃ later, after.runs runId = some later ∧ row.Stays later
  rounds : ∀ roundId round, store.toolRounds roundId = some round → round.runId = runId →
    after.toolRounds roundId = some round

namespace Leaves

variable {runId : RunId} {store between after : Store D}

theorem frame (runs : after.runs = store.runs) (toolRounds : after.toolRounds = store.toolRounds) :
    Leaves runId store after :=
  ⟨fun row found => ⟨row, by rw [runs, found], rfl, rfl⟩,
    fun roundId round found _ => by rw [toolRounds, found]⟩

theorem trans (one : Leaves runId store between) (two : Leaves runId between after) :
    Leaves runId store after := by
  constructor
  case head =>
    intro row found
    obtain ⟨middle, found, stays⟩ := one.head row found
    obtain ⟨later, found, stays'⟩ := two.head middle found
    exact ⟨later, found, stays'.1.trans stays.1, stays'.2.trans stays.2⟩
  case rounds =>
    exact fun roundId round found owner =>
      two.rounds roundId round (one.rounds roundId round found owner) owner

theorem update (owner : RunId) (change : RunRow → RunRow)
    (stays : owner = runId → ∀ row : RunRow, row.Stays (change row)) :
    Leaves runId store (updateRun owner change store) := by
  refine ⟨fun row found => ?_, fun roundId round found _ => found⟩
  by_cases same : runId = owner
  · subst same
    exact ⟨change row, by simp [found], stays rfl row⟩
  · exact ⟨row, by simp [Function.update_of_ne same, found], rfl, rfl⟩

theorem advance {conversationId : ConversationId} {owner : RunId} (other : owner ≠ runId)
    (checkpointId : CheckpointId) :
    Leaves runId store (advance conversationId owner checkpointId store) :=
  (frame rfl rfl : Leaves runId store (updateConversation conversationId
    (fun row => { row with currentCheckpointId := some checkpointId }) store)).trans
    (update owner _ fun same => absurd same other)

theorem ensureConversation {conversationId : ConversationId} {current : CheckpointId}
    (ran : Store.ensureConversation conversationId store = .ok (current, after)) :
    Leaves runId store after := by
  rcases ensureConversation_ok ran with ⟨-, rfl⟩ | ⟨-, -, -, rfl⟩
  · exact frame rfl rfl
  · exact frame rfl rfl

theorem inserted {above : CheckpointRow D} {additions : List CanonicalMessage}
    {checkpointId : CheckpointId} (inserted : InsertedBelow store after above additions checkpointId) :
    Leaves runId store after := frame inserted.runs inserted.toolRounds

theorem committed {conversationId : ConversationId} {owner : RunId} {expected : CheckpointId}
    {above : CheckpointRow D} {additions : List CanonicalMessage} {checkpointId : CheckpointId}
    (other : owner ≠ runId) (committed : Committed store after conversationId owner expected above
      additions checkpointId) : Leaves runId store after := by
  obtain ⟨between, insert, rfl⟩ := committed.between
  exact (inserted insert).trans (advance other checkpointId)

end Leaves

theorem RunRow.stays_cancel (row : RunRow) : row.Stays row.cancel := by
  unfold RunRow.cancel
  split <;> exact ⟨rfl, rfl⟩

theorem RunRow.stays_finish (row : RunRow) (status : RunStatus) (failure : Option (String × String)) :
    row.Stays (row.finish status failure) := by
  unfold RunRow.finish
  split <;> exact ⟨rfl, rfl⟩

theorem RunRow.stays_interrupt (row : RunRow) (processStartedAtMs : Int) :
    row.Stays (row.interrupt processStartedAtMs) := by
  unfold RunRow.interrupt
  split <;> exact ⟨rfl, rfl⟩

theorem Leaves.claim {store : Store D} {runId : RunId} {prepared : PreparedRun} {nowMs : Int}
    (fresh : store.runs prepared.runId = none) :
    Leaves runId store (Store.claim prepared nowMs store) := by
  refine ⟨fun row found => ?_, fun roundId round found _ => by rwa [claim_toolRounds]⟩
  have other : runId ≠ prepared.runId := by
    rintro rfl
    rw [fresh] at found
    cases found
  rw [claim_runs, if_neg other]
  split
  · exact ⟨row.cancel, by rw [found]; rfl, row.stays_cancel⟩
  · exact ⟨row, found, rfl, rfl⟩

theorem Leaves.toolRound {store : Store D} {runId : RunId} {roundId : ToolRoundId}
    (free : ∀ round, store.toolRounds roundId = some round → round.runId ≠ runId)
    (row : Option ToolRoundRow) :
    Leaves runId store { store with toolRounds := Function.update store.toolRounds roundId row } := by
  refine ⟨fun row found => ⟨row, found, rfl, rfl⟩, fun other round found owner => ?_⟩
  have apart : other ≠ roundId := by
    rintro rfl
    exact free round found owner
  rw [← found]
  exact Function.update_of_ne apart _ _

/-- **An operation that is not a commit of a run leaves the run where it is.** -/
theorem foreign_leaves {store after : Store D} (wellFormed : store.WellFormed) {runId : RunId}
    {operation : Operation} (foreign : ¬ operation.CommitOf runId)
    (ran : operation.transaction store = .ok ((), after)) : Leaves runId store after := by
  cases operation with
  | ensureConversation conversationId =>
    obtain ⟨_, ran⟩ := ignore_ok.mp ran
    exact .ensureConversation ran
  | claimRun prepared nowMs =>
    obtain ⟨_, ran⟩ := ignore_ok.mp ran
    obtain ⟨_, between, ensured, -, fresh, rfl, -⟩ := claimRun_ok ran
    exact (Leaves.ensureConversation ensured).trans (.claim fresh)
  | appendMessagesOnce conversationId owner expected known messages =>
    have other : owner ≠ runId := foreign
    obtain ⟨_, ran⟩ := ignore_ok.mp ran
    by_cases empty : messages = []
    · rw [Store.appendMessagesOnce, Store.appendMessagesWith, if_pos empty] at ran
      obtain ⟨-, rfl⟩ := pure_ok.mp ran
      exact .frame rfl rfl
    · obtain ⟨between, state, -, loop, rfl⟩ := (appendMessagesOnce_ok wellFormed empty ran).between
      have kept : Leaves runId store between := .frame loop.runs loop.toolRounds
      split
      · exact kept
      · exact kept.trans (.advance other state.head)
  | appendCheckpoint conversationId owner expected additions =>
    have other : owner ≠ runId := foreign
    obtain ⟨_, ran⟩ := ignore_ok.mp ran
    by_cases empty : additions = []
    · rw [Store.appendCheckpoint, if_pos empty] at ran
      obtain ⟨-, rfl⟩ := pure_ok.mp ran
      exact .frame rfl rfl
    · rw [Store.appendCheckpoint, if_neg empty] at ran
      obtain ⟨_, -, committed⟩ := appendCheckpointTx_ok wellFormed ran
      exact .committed other committed
  | replaceCheckpoint conversationId owner expected messages =>
    have other : owner ≠ runId := foreign
    obtain ⟨_, ran⟩ := ignore_ok.mp ran
    obtain ⟨_, -, committed⟩ := replaceCheckpoint_ok wellFormed ran
    exact .committed other committed
  | createToolRound roundId owner baseCheckpointId assistant calls createdAtMs nowMs =>
    obtain ⟨-, -, free, -, -, rfl⟩ := createToolRound_ok ran
    exact .toolRound (fun round found => by rw [free] at found; cases found) _
  | commitToolResult conversationId owner roundId result =>
    have other : owner ≠ runId := foreign
    obtain ⟨_, ran⟩ := ignore_ok.mp ran
    obtain ⟨round, _, _, committed⟩ := commitToolResult_ok wellFormed ran
    obtain ⟨_, between, -, done, rfl⟩ := committed.between
    obtain ⟨last, insert, same⟩ := done.between
    have rounds : between.toolRounds = store.toolRounds := by
      rw [same]
      exact insert.toolRounds
    refine (Leaves.committed other done).trans (.toolRound (fun row found => ?_) _)
    rw [rounds, committed.stored] at found
    cases found
    exact committed.owner ▸ other
  | importCheckpoint conversationId messages =>
    obtain ⟨_, ran⟩ := ignore_ok.mp ran
    obtain ⟨_, _, _, _, ensured, imported⟩ := importCheckpoint_ok wellFormed ran
    refine (Leaves.ensureConversation ensured).trans ?_
    rcases imported.outcome with ⟨-, -, -, rfl⟩ | ⟨-, -, rfl⟩ | ⟨-, inserted⟩
    · exact .frame rfl rfl
    · exact .frame rfl rfl
    · exact .inserted inserted
  | finishRun owner status failure =>
    obtain ⟨_, ran⟩ := ignore_ok.mp ran
    obtain ⟨row, -, -, rfl, -⟩ := finishRun_ok ran
    exact (Leaves.update owner _ fun _ row => row.stays_finish status failure).trans (.frame rfl rfl)
  | reconcileInterruptedRuns processStartedAtMs =>
    obtain rfl := write_ok.mp ran
    refine ⟨fun row found => ?_, fun roundId round found _ => found⟩
    exact ⟨row.interrupt processStartedAtMs, by simp [found], row.stays_interrupt _⟩

theorem foreign_apply {store : Store D} (wellFormed : store.WellFormed) {runId : RunId}
    {operation : Operation} (foreign : ¬ operation.CommitOf runId) :
    Leaves runId store (operation.apply store) := by
  rcases ran : operation.transaction store with error | ⟨done, after⟩
  · rw [Operation.apply_of_error ran]
    exact .frame rfl rfl
  · rw [Operation.apply_of_ok ran]
    exact foreign_leaves wellFormed foreign ran

end Byok
