/-
**A replaced run is shut out.**

Once another run has claimed the conversation, nothing the old run still sends to the store changes
it: its commits are refused and its `finish_run` finds nothing to release (`replaced_run_isolated`).
The checks are spread over several statements; that they all refuse follows from the ownership
invariant alone, since the old run has ended and only a running run is active anywhere.
-/

import Byok.Store.Chain
import Byok.Store.Ownership

set_option linter.unusedSectionVars false

namespace Byok

open Library Transaction Store

variable {D : Type} [DecidableEq D] [ChainHash D]

namespace Operation

/-- The operation is a commit of a run: an append, a replacement, a tool round or a tool result. -/
def CommitOf (runId : RunId) : Operation → Prop
  | appendMessagesOnce _ owner _ _ _ => owner = runId
  | appendCheckpoint _ owner _ _ => owner = runId
  | replaceCheckpoint _ owner _ _ => owner = runId
  | createToolRound _ owner _ _ _ _ _ => owner = runId
  | commitToolResult _ owner _ _ => owner = runId
  | _ => False

/-- The operation appends an empty list, which returns before it looks at the store. -/
def AppendsNothing : Operation → Prop
  | appendMessagesOnce _ _ _ _ messages => messages = []
  | appendCheckpoint _ _ _ additions => additions = []
  | _ => False

theorem apply_of_error {operation : Operation} {store : Store D} {error : Error}
    (failed : operation.transaction store = .error error) : operation.apply store = store := by
  rw [apply, execute_error failed]

theorem apply_of_ok {operation : Operation} {store after : Store D}
    (ran : operation.transaction store = .ok ((), after)) : operation.apply store = after := by
  rw [apply, execute_ok ran]

theorem succeeds_iff {operation : Operation} {store : Store D} :
    operation.Succeeds store ↔ ∃ after, operation.transaction store = .ok ((), after) := by
  rw [Succeeds]
  rcases ran : operation.transaction store with error | ⟨done, after⟩
  · rw [execute_error ran]
    simp
  · rw [execute_ok ran]
    simp

end Operation

theorem appendsNothing_ok {operation : Operation} (nothing : operation.AppendsNothing) (store : Store D) :
    operation.transaction store = .ok ((), store) := by
  cases operation with
  | appendMessagesOnce conversationId owner expected known messages =>
    obtain rfl : messages = [] := nothing
    have ran : Store.appendMessagesOnce conversationId owner expected known [] store = .ok ([], store) := rfl
    exact ignore_ok.mpr ⟨[], ran⟩
  | appendCheckpoint conversationId owner expected additions =>
    obtain rfl : additions = [] := nothing
    have ran : Store.appendCheckpoint conversationId owner expected [] store = .ok (expected, store) := rfl
    exact ignore_ok.mpr ⟨expected, ran⟩
  | _ => exact nothing.elim

section Ended

variable {store : Store D} {runId : RunId} {row : RunRow}

theorem not_active_of_ended (wellFormed : store.WellFormed) (found : store.runs runId = some row)
    (ended : row.status ≠ .running) {conversationId : ConversationId} {conversation : ConversationRow}
    (home : store.conversations conversationId = some conversation) :
    conversation.activeRunId ≠ some runId := by
  intro active
  obtain ⟨run, foundRun, running, -⟩ :=
    wellFormed.owned.active conversationId conversation runId home active
  rw [found] at foundRun
  cases foundRun
  exact ended running

theorem not_committed_of_ended (wellFormed : store.WellFormed) (found : store.runs runId = some row)
    (ended : row.status ≠ .running) {conversationId : ConversationId} {expected : CheckpointId} :
    store.conversations conversationId ≠ some ⟨some expected, some runId⟩ :=
  fun owner => not_active_of_ended wellFormed found ended owner rfl

theorem commit_refused (wellFormed : store.WellFormed) (found : store.runs runId = some row)
    (ended : row.status ≠ .running) {operation : Operation} (commit : operation.CommitOf runId)
    (something : ¬ operation.AppendsNothing) : ¬ operation.Succeeds store := by
  rw [Operation.succeeds_iff]
  rintro ⟨after, ran⟩
  cases operation with
  | appendMessagesOnce conversationId owner expected known messages =>
    obtain rfl : owner = runId := commit
    obtain ⟨_, ran⟩ := ignore_ok.mp ran
    exact not_committed_of_ended wellFormed found ended
      (appendMessagesOnce_ok wellFormed something ran).owner
  | appendCheckpoint conversationId owner expected additions =>
    obtain rfl : owner = runId := commit
    obtain ⟨_, ran⟩ := ignore_ok.mp ran
    have nonempty : additions ≠ [] := something
    rw [appendCheckpoint, if_neg nonempty] at ran
    obtain ⟨_, -, committed⟩ := appendCheckpointTx_ok wellFormed ran
    exact not_committed_of_ended wellFormed found ended committed.owner
  | replaceCheckpoint conversationId owner expected messages =>
    obtain rfl : owner = runId := commit
    obtain ⟨_, ran⟩ := ignore_ok.mp ran
    obtain ⟨_, -, committed⟩ := replaceCheckpoint_ok wellFormed ran
    exact not_committed_of_ended wellFormed found ended committed.owner
  | createToolRound roundId owner baseCheckpointId assistant calls createdAtMs nowMs =>
    obtain rfl : owner = runId := commit
    obtain ⟨-, owns, -⟩ := createToolRound_ok ran
    simp only [ownsHead, found, Bool.and_eq_true, decide_eq_true_eq] at owns
    exact ended owns.1.2
  | commitToolResult conversationId owner roundId result =>
    obtain rfl : owner = runId := commit
    obtain ⟨_, ran⟩ := ignore_ok.mp ran
    obtain ⟨_, _, _, committed⟩ := commitToolResult_ok wellFormed ran
    obtain ⟨_, _, -, done, -⟩ := committed.between
    exact not_committed_of_ended wellFormed found ended done.owner
  | ensureConversation => exact commit
  | claimRun => exact commit
  | importCheckpoint => exact commit
  | finishRun => exact commit
  | reconcileInterruptedRuns => exact commit

theorem commit_of_ended (wellFormed : store.WellFormed) (found : store.runs runId = some row)
    (ended : row.status ≠ .running) {operation : Operation} (commit : operation.CommitOf runId) :
    operation.apply store = store := by
  by_cases nothing : operation.AppendsNothing
  · cases operation with
    | appendMessagesOnce conversationId owner expected known messages =>
      obtain rfl : messages = [] := nothing
      exact Operation.apply_of_ok rfl
    | appendCheckpoint conversationId owner expected additions =>
      obtain rfl : additions = [] := nothing
      exact Operation.apply_of_ok rfl
    | _ => exact nothing.elim
  · have refused := commit_refused wellFormed found ended commit nothing
    rw [Operation.succeeds_iff] at refused
    rcases ran : operation.transaction store with error | ⟨done, after⟩
    · exact Operation.apply_of_error ran
    · exact absurd ⟨after, ran⟩ refused

theorem finish_of_ended (wellFormed : store.WellFormed) (found : store.runs runId = some row)
    (ended : row.status ≠ .running) (status : RunStatus) (failure : Option (String × String)) :
    (Operation.finishRun runId status failure).apply store = store := by
  rcases ran : (Operation.finishRun runId status failure).transaction store with error | ⟨_, after⟩
  · exact Operation.apply_of_error ran
  · rw [Operation.apply_of_ok ran]
    obtain ⟨_, ran⟩ := ignore_ok.mp ran
    obtain ⟨row', found', -, rfl, -⟩ := finishRun_ok ran
    rw [found] at found'
    cases found'
    have same : row.finish status failure = row := by simp [RunRow.finish, ended]
    have runs : updateRun runId (·.finish status failure) store = store := by
      simp only [updateRun, found, Option.map_some, same]
      rw [← found, Function.update_eq_self]
    rw [runs, release, updateConversation]
    have kept : (store.conversations row.conversationId).map (fun conversation =>
        if conversation.activeRunId = some runId then { conversation with activeRunId := none }
        else conversation) = store.conversations row.conversationId := by
      cases home : store.conversations row.conversationId with
      | none => rfl
      | some conversation =>
        simp [not_active_of_ended wellFormed found ended home]
    rw [kept, Function.update_eq_self]

end Ended

theorem ended_of_claim {before claimed : Store D} (wellFormed : before.WellFormed) {runId : RunId}
    {row : RunRow} (found : before.runs runId = some row) {prepared : PreparedRun} {nowMs : Int}
    {outcome : ClaimedRun} (home : row.conversationId = prepared.conversationId)
    (claim : claimRun prepared nowMs before = .ok (outcome, claimed)) :
    ∃ later, claimed.runs runId = some later ∧ later.status ≠ .running := by
  obtain ⟨current, between, ensured, -, fresh, rfl, -⟩ := claimRun_ok claim
  have wrote := ensureConversation_writes ensured
  obtain ⟨row', found', follows⟩ := writesMany_runsFollow wrote runId row found
  have other : runId ≠ prepared.runId := by
    rintro rfl
    rw [fresh] at found'
    cases found'
  rw [claim_runs, if_neg other, found']
  by_cases running : row'.status = .running
  · -- it was running, so it was the active run, and the claim cancels it
    obtain ⟨conversation, found'', active⟩ :=
      (wellFormed_writesMany wellFormed wrote).owned.running runId row' found' running
    rw [follows.conversationId, home] at found''
    have replaced : between.replacedBy prepared = some runId :=
      Owned.replacedBy_eq_some.mpr ⟨by rw [found'', Option.bind_some, active], other⟩
    rw [if_pos replaced]
    exact ⟨row'.cancel, rfl, by simp [RunRow.cancel, running]⟩
  · split
    · exact ⟨row'.cancel, rfl, by simp [RunRow.cancel, running]⟩
    · exact ⟨row', rfl, running⟩

/-- The run can do nothing to the store: its commits are refused, but an append of nothing returns at
once, and neither they nor its end change anything. -/
structure ShutOut (store : Store D) (runId : RunId) : Prop where
  refused : ∀ operation : Operation, operation.CommitOf runId → ¬ operation.AppendsNothing →
    ¬ operation.Succeeds store
  nothing : ∀ operation : Operation, operation.CommitOf runId → operation.AppendsNothing →
    operation.transaction store = .ok ((), store)
  unchanged : ∀ operation : Operation, operation.CommitOf runId → operation.apply store = store
  finish : ∀ status failure, (Operation.finishRun runId status failure).apply store = store

/-- **A run whose conversation another run has claimed changes nothing any more.** -/
theorem replaced_run_isolated {before claimed store : Store D}
    (reachable : (storeSystem D).Reachable before) {runId : RunId} {row : RunRow}
    (found : before.runs runId = some row) {prepared : PreparedRun} {nowMs : Int}
    {outcome : ClaimedRun} (home : row.conversationId = prepared.conversationId)
    (claim : claimRun prepared nowMs before = .ok (outcome, claimed))
    {operations : List Operation} (run : (storeSystem D).Run claimed operations store) :
    ShutOut store runId := by
  have wellFormed := wellFormed_of_reachable reachable
  obtain ⟨row', found', ended⟩ := ended_of_claim wellFormed found home claim
  obtain ⟨wellFormed', wrote⟩ :=
    run_writes (wellFormed_writesMany wellFormed (claimRun_writes claim)) run
  obtain ⟨last, foundLast, follows⟩ := writesMany_runsFollow wrote runId row' found'
  have endedLast : last.status ≠ .running := by
    rw [(follows.terminal ended).1]
    exact ended
  exact ⟨fun _ => commit_refused wellFormed' foundLast endedLast,
    fun _ _ nothing => appendsNothing_ok nothing store, fun _ => commit_of_ended wellFormed' foundLast endedLast,
    finish_of_ended wellFormed' foundLast endedLast⟩

/-! ### Two runs of one conversation -/

/-- The conversation when its first run has claimed it. -/
def firstClaimed : Store HistoryDigest :=
  (Operation.claimRun (samplePrepared "first") 0).apply Store.empty

/-- The conversation when the second run has claimed it too. -/
def secondClaimed : Store HistoryDigest :=
  (Operation.claimRun (samplePrepared "second") 1).apply firstClaimed

theorem replaced_run_isolated_sample : ShutOut secondClaimed ⟨"first"⟩ := by
  have reachable : (storeSystem HistoryDigest).Reachable firstClaimed :=
    ⟨Store.empty, [.claimRun (samplePrepared "first") 0], rfl, .single rfl⟩
  have found : firstClaimed.runs ⟨"first"⟩ = some (claimedRow (samplePrepared "first") 0) := rfl
  have claim : claimRun (samplePrepared "second") 1 firstClaimed = .ok (_, secondClaimed) := rfl
  have home : (claimedRow (samplePrepared "first") 0).conversationId =
      (samplePrepared "second").conversationId := rfl
  exact replaced_run_isolated reachable found home claim .nil

/-- An empty append of the replaced run returns before any check, and a run that claims the
conversation after the second one may write to it. -/
theorem late_append_accepted :
    (Operation.appendCheckpoint ⟨"conversation"⟩ ⟨"first"⟩ ⟨1⟩ []).Succeeds secondClaimed ∧
    (Operation.appendCheckpoint ⟨"conversation"⟩ ⟨"third"⟩ ⟨1⟩
      [{ messageId := "question", role := .user, origin := .user
         content := .parts [.text "and now?"], runtimeEventId := none }]).Succeeds
      ((Operation.claimRun (samplePrepared "third") 2).apply secondClaimed) := by
  exact ⟨rfl, rfl⟩

end Byok
