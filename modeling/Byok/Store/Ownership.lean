/-
**Who owns a conversation.**

In every reachable store the active run of a conversation and the running runs are the same thing,
and the status a run ends with never changes again (`run_ownership`).
-/

import Byok.Store.Operations

set_option linter.unusedSectionVars false

namespace Byok

open Library Store

variable {D : Type} [DecidableEq D] [ChainHash D]

/-- What later rows of a run keep: its conversation, and how it ended. -/
structure RunRow.Follows (row later : RunRow) : Prop where
  conversationId : later.conversationId = row.conversationId
  terminal : row.status ≠ .running → later.status = row.status ∧
    later.failureCategory = row.failureCategory ∧ later.failureSummary = row.failureSummary

namespace RunRow.Follows

theorem refl (row : RunRow) : row.Follows row := ⟨rfl, fun _ => ⟨rfl, rfl, rfl⟩⟩

theorem trans {first second third : RunRow} (one : first.Follows second)
    (two : second.Follows third) : first.Follows third := by
  refine ⟨two.conversationId.trans one.conversationId, fun ended => ?_⟩
  obtain ⟨status, category, summary⟩ := one.terminal ended
  obtain ⟨status', category', summary'⟩ := two.terminal (status ▸ ended)
  exact ⟨status'.trans status, category'.trans category, summary'.trans summary⟩

theorem cancel (row : RunRow) : row.Follows row.cancel := by
  unfold RunRow.cancel
  split
  · rename_i running
    exact ⟨rfl, fun ended => absurd running ended⟩
  · exact refl row

theorem finish (row : RunRow) (status : RunStatus) (failure : Option (String × String)) :
    row.Follows (row.finish status failure) := by
  unfold RunRow.finish
  split
  · rename_i running
    exact ⟨rfl, fun ended => absurd running ended⟩
  · exact refl row

theorem interrupt (row : RunRow) (processStartedAtMs : Int) :
    row.Follows (row.interrupt processStartedAtMs) := by
  unfold RunRow.interrupt
  split
  · rename_i interrupted
    simp only [RunRow.interrupted, Bool.and_eq_true, decide_eq_true_eq] at interrupted
    exact ⟨rfl, fun ended => absurd interrupted.1 ended⟩
  · exact refl row

end RunRow.Follows

/-- Every run is still there, and ended runs as they ended. -/
def RunsFollow (store after : Store D) : Prop :=
  ∀ runId (row : RunRow), store.runs runId = some row →
    ∃ later, after.runs runId = some later ∧ row.Follows later

theorem RunsFollow.refl (store : Store D) : RunsFollow store store :=
  fun _ row found => ⟨row, found, .refl row⟩

theorem RunsFollow.trans {first second third : Store D} (one : RunsFollow first second)
    (two : RunsFollow second third) : RunsFollow first third := by
  intro runId row found
  obtain ⟨later, found', follows⟩ := one runId row found
  obtain ⟨last, found'', follows'⟩ := two runId later found'
  exact ⟨last, found'', follows.trans follows'⟩

theorem runsFollow_update {store after : Store D} (runId : RunId) (change : RunRow → RunRow)
    (runs : ∀ other, after.runs other =
      Function.update store.runs runId ((store.runs runId).map change) other)
    (follows : ∀ row : RunRow, row.Follows (change row)) : RunsFollow store after := by
  intro other row found
  rw [runs]
  by_cases same : other = runId
  · subst same
    exact ⟨change row, by simp [found], follows row⟩
  · exact ⟨row, by simp [Function.update_of_ne same, found], .refl row⟩

theorem writes_runsFollow {store after : Store D} (wrote : Writes store after) :
    RunsFollow store after := by
  cases wrote with
  | createConversation => exact .refl _
  | insertMessage => exact .refl _
  | insertCheckpoint => exact .refl _
  | advance row runId expected =>
    exact runsFollow_update runId
      (fun run => { run with headCheckpointId := row.checkpointId })
      (fun _ => rfl) fun run => ⟨rfl, fun _ => ⟨rfl, rfl, rfl⟩⟩
  | claim prepared nowMs base member named belongs fresh =>
    intro runId row found
    have other : runId ≠ prepared.runId := by
      rintro rfl
      rw [fresh] at found
      cases found
    rw [claim_runs, if_neg other]
    split
    · exact ⟨row.cancel, by rw [found]; rfl, .cancel row⟩
    · exact ⟨row, found, .refl row⟩
  | finish runId row status failure =>
    exact runsFollow_update runId (·.finish status failure)
      (fun _ => rfl) fun run => .finish run status failure
  | reconcile processStartedAtMs =>
    intro runId row found
    exact ⟨row.interrupt processStartedAtMs, by simp [found], .interrupt row processStartedAtMs⟩
  | toolRounds => exact .refl _

theorem writesMany_runsFollow {store after : Store D} (wrote : WritesMany store after) :
    RunsFollow store after := by
  induction wrote with
  | refl => exact .refl _
  | tail _ step ih => exact ih.trans (writes_runsFollow step)

/-- Ownership as the rest of the program sees it: an active run runs at the conversation's current
checkpoint, a running run is the active one, checkpoints stay in their conversation, and a run ends
once. -/
structure RunOwnership (store : Store D) : Prop where
  active : ∀ conversationId row runId, store.conversations conversationId = some row →
    row.activeRunId = some runId → ∃ run, store.runs runId = some run ∧ run.status = .running ∧
      run.conversationId = conversationId ∧
      row.currentCheckpointId = some run.headCheckpointId
  running : ∀ runId run, store.runs runId = some run → run.status = .running →
    ∃ row, store.conversations run.conversationId = some row ∧ row.activeRunId = some runId
  oneRunning : ∀ first second run run', store.runs first = some run →
    store.runs second = some run' → run.status = .running → run'.status = .running →
    run.conversationId = run'.conversationId → first = second
  current : ∀ conversationId row, store.conversations conversationId = some row →
    ∃ checkpointId, row.currentCheckpointId = some checkpointId ∧
      store.Belongs checkpointId conversationId
  head : ∀ runId run, store.runs runId = some run →
    store.Belongs run.headCheckpointId run.conversationId
  terminal : ∀ operations after, (storeSystem D).Run store operations after →
    ∀ runId run, store.runs runId = some run → run.status ≠ .running →
      ∃ later, after.runs runId = some later ∧ later.status = run.status ∧
        later.failureCategory = run.failureCategory ∧ later.failureSummary = run.failureSummary

/-- **The run ownership invariant.** -/
theorem run_ownership {store : Store D} (reachable : (storeSystem D).Reachable store) :
    RunOwnership store := by
  have wellFormed := wellFormed_of_reachable reachable
  have owned := wellFormed.owned
  refine ⟨owned.active, owned.running, ?_, owned.current, owned.head, ?_⟩
  · intro first second run run' found found' status status' same
    obtain ⟨row, home, active⟩ := owned.running first run found status
    obtain ⟨row', home', active'⟩ := owned.running second run' found' status'
    rw [same, home'] at home
    cases home
    rw [active] at active'
    exact Option.some.inj active'
  · intro operations after ran runId run found ended
    obtain ⟨later, found', follows⟩ :=
      writesMany_runsFollow (run_writes wellFormed ran).2 runId run found
    exact ⟨later, found', follows.terminal ended⟩

/-- A second run takes the conversation over; the first one then appends and finishes, too late. -/
def sampleTakenOver : Store HistoryDigest :=
  [.claimRun (samplePrepared "first") 0, .claimRun (samplePrepared "second") 1,
    .appendCheckpoint ⟨"conversation"⟩ ⟨"first"⟩ ⟨1⟩ [sampleAsked "question" "what?"],
    .finishRun ⟨"first"⟩ .completed none].foldl
      (fun store operation => Operation.apply operation store) Store.empty

theorem run_ownership_sample :
    RunOwnership sampleTakenOver ∧
    (sampleTakenOver.runs ⟨"first"⟩).map (·.status) = some .cancelled ∧
    (sampleTakenOver.runs ⟨"second"⟩).map (·.status) = some .running ∧
    (sampleTakenOver.conversations ⟨"conversation"⟩).bind (·.activeRunId) = some ⟨"second"⟩ :=
  ⟨run_ownership ⟨Store.empty, _, rfl, .cons rfl <| .cons rfl <| .cons rfl <| .single rfl⟩,
    by decide +kernel, by decide +kernel, by decide +kernel⟩

end Byok
