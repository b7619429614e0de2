/-
**What a commit does to the frame of a run.**

`Frame.Claimed` ties the checkpoint that the code of a run goes by to the store: it is the head in the
row of the run. Each operation that the run uses keeps it and moves the chain on (`Frame.Moves`), and
what others do in between moves nothing (`foreign_moves`).
-/

import Byok.Run.ToolRound
import Byok.Store.Foreign
import Mathlib.Data.List.Infix

set_option linter.unusedSectionVars false

namespace Byok

open Library Transaction Store

variable {D : Type} [DecidableEq D] [ChainHash D]

/-- The checkpoint that the code goes by is the head in the row of the run. -/
structure Frame.Claimed (prepared : PreparedRun) (frame : Frame D) : Prop where
  wellFormed : frame.store.WellFormed
  run : ∃ row, frame.store.runs prepared.runId = some row ∧
    row.conversationId = prepared.conversationId ∧ row.headCheckpointId = frame.checkpoint

/-- The run goes on from `frame` to `next`: its chain grows by `additions`, and each new checkpoint on
the way adds one of the `steps`. -/
structure Frame.Moves (prepared : PreparedRun) (frame next : Frame D)
    (additions : List CanonicalMessage) (steps : List (List CanonicalMessage)) : Prop where
  claimed : next.Claimed prepared
  extends' : Extends frame.store next.store
  chain : next.chain = frame.chain ++ additions
  path : ∀ row ∈ next.store.lineage next.checkpoint,
    row ∈ frame.store.lineage frame.checkpoint ∨
    ∃ part ∈ steps, next.store.loadCheckpointMessages row.checkpointId = frame.chain ++ part

section Claimed

variable {prepared : PreparedRun} {frame next : Frame D}

theorem Frame.Claimed.top (claimed : frame.Claimed prepared) :
    ∃ row ∈ frame.store.checkpoints, row.checkpointId = frame.checkpoint ∧
      row.conversationId = prepared.conversationId := by
  obtain ⟨row, found, home, head⟩ := claimed.run
  have belongs := claimed.wellFormed.owned.head prepared.runId row found
  rwa [head, home] at belongs

theorem Frame.Claimed.identities (claimed : frame.Claimed prepared) :
    frame.store.chainIdentities prepared.conversationId frame.checkpoint =
      frame.chain.map chainIdentity := by
  obtain ⟨row, member, named, home⟩ := claimed.top
  have found := checkpoint?_of_mem claimed.wellFormed member
  rw [named] at found
  rw [chainIdentities, found]
  simp only [home, if_true]
  rfl

theorem Frame.Claimed.stored (claimed : frame.Claimed prepared) {message : CanonicalMessage}
    (listed : message ∈ frame.chain) :
    frame.store.message? prepared.conversationId message.messageId = some message := by
  obtain ⟨row, member, named, home⟩ := claimed.top
  rw [Frame.chain, ← named] at listed
  rw [← home]
  exact load_stored claimed.wellFormed member listed

theorem Frame.Claimed.leaves (claimed : frame.Claimed prepared) (wellFormed : next.store.WellFormed)
    (leaves : Leaves prepared.runId frame.store next.store)
    (checkpoint : next.checkpoint = frame.checkpoint) : next.Claimed prepared := by
  obtain ⟨row, found, home, head⟩ := claimed.run
  obtain ⟨later, found, stays⟩ := leaves.head row found
  exact ⟨wellFormed, later, found, stays.1.trans home, by rw [stays.2, head, checkpoint]⟩

theorem Frame.Claimed.chain_extends (claimed : frame.Claimed prepared)
    (wellFormed : next.store.WellFormed) (grown : Extends frame.store next.store)
    (checkpoint : next.checkpoint = frame.checkpoint) : next.chain = frame.chain := by
  obtain ⟨row, member, named, -⟩ := claimed.top
  rw [Frame.chain, checkpoint, ← named,
    load_extends claimed.wellFormed wellFormed grown member, named]
  rfl

theorem Frame.Claimed.lineage_extends (claimed : frame.Claimed prepared)
    (wellFormed : next.store.WellFormed) (grown : Extends frame.store next.store)
    (checkpoint : next.checkpoint = frame.checkpoint) :
    next.store.lineage next.checkpoint = frame.store.lineage frame.checkpoint := by
  obtain ⟨row, member, named, -⟩ := claimed.top
  rw [checkpoint, ← named]
  exact Store.lineage_extends wellFormed grown member

theorem Frame.Claimed.rests (claimed : frame.Claimed prepared) (wellFormed : next.store.WellFormed)
    (grown : Extends frame.store next.store) (leaves : Leaves prepared.runId frame.store next.store)
    (checkpoint : next.checkpoint = frame.checkpoint) : frame.Moves prepared next [] [] where
  claimed := claimed.leaves wellFormed leaves checkpoint
  extends' := grown
  chain := by rw [claimed.chain_extends wellFormed grown checkpoint, List.append_nil]
  path row listed := by
    rw [claimed.lineage_extends wellFormed grown checkpoint] at listed
    exact .inl listed

/-- **What others do moves nothing.** -/
theorem foreign_moves (claimed : frame.Claimed prepared) {operation : Operation}
    (foreign : ¬ operation.CommitOf prepared.runId) :
    frame.Moves prepared { frame with store := operation.apply frame.store } [] [] :=
  have wrote := operation.apply_writes claimed.wellFormed
  claimed.rests (wellFormed_writesMany claimed.wellFormed wrote) (writesMany_extends wrote)
    (foreign_apply claimed.wellFormed foreign) rfl

end Claimed

/-! ### The commits of the run -/

section Commits

variable {prepared : PreparedRun} {frame : Frame D} {store : Store D}

theorem claimed_advance {between : Store D} (claimed : frame.Claimed prepared)
    (runs : between.runs = frame.store.runs) (checkpointId : CheckpointId)
    (wellFormed : (advance prepared.conversationId prepared.runId checkpointId between).WellFormed) :
    ({ frame with
      store := advance prepared.conversationId prepared.runId checkpointId between
      checkpoint := checkpointId } : Frame D).Claimed prepared := by
  obtain ⟨row, found, home, -⟩ := claimed.run
  refine ⟨wellFormed, { row with headCheckpointId := checkpointId }, ?_, home, rfl⟩
  simp [runs, found]

theorem committed_moves (claimed : frame.Claimed prepared) {expected checkpointId : CheckpointId}
    {above : CheckpointRow D} {additions : List CanonicalMessage}
    (head : above.checkpointId = frame.checkpoint)
    (committed : Committed frame.store store prepared.conversationId prepared.runId expected above
      additions checkpointId) :
    frame.Moves prepared { frame with store, checkpoint := checkpointId }
      (additions.map (·.payload)) [additions.map (·.payload)] := by
  have wellFormed := wellFormed_writesMany claimed.wellFormed committed.writes
  have load := committed.load claimed.wellFormed
  rw [head] at load
  obtain ⟨between, inserted, rfl⟩ := committed.between
  refine ⟨claimed_advance claimed inserted.runs checkpointId wellFormed,
    writesMany_extends committed.writes, load, fun row listed => ?_⟩
  have path := inserted.lineage claimed.wellFormed committed.member
  rw [head] at path
  have listed : row ∈ between.lineage checkpointId := listed
  rw [path] at listed
  rcases List.mem_append.mp listed with early | late
  · exact .inl early
  · obtain rfl := List.mem_singleton.mp late
    exact .inr ⟨_, List.mem_singleton_self _, load⟩

theorem appendCheckpoint_moves (claimed : frame.Claimed prepared)
    {additions : List CanonicalMessage} {checkpointId : CheckpointId} (some : additions ≠ [])
    (ran : appendCheckpoint prepared.conversationId prepared.runId frame.checkpoint additions
      frame.store = .ok (checkpointId, store)) :
    frame.Moves prepared { frame with store, checkpoint := checkpointId }
      (additions.map (·.payload)) [additions.map (·.payload)] := by
  rw [appendCheckpoint, if_neg some] at ran
  obtain ⟨above, named, committed⟩ := appendCheckpointTx_ok claimed.wellFormed ran
  exact committed_moves claimed named committed

theorem replaceCheckpoint_claimed (claimed : frame.Claimed prepared)
    {messages : List CanonicalMessage} {checkpointId : CheckpointId}
    (ran : replaceCheckpoint prepared.conversationId prepared.runId frame.checkpoint messages
      frame.store = .ok (checkpointId, store)) :
    ({ frame with store, checkpoint := checkpointId } : Frame D).Claimed prepared ∧
      Extends frame.store store := by
  obtain ⟨root, -, committed⟩ := replaceCheckpoint_ok claimed.wellFormed ran
  have wellFormed := wellFormed_writesMany claimed.wellFormed committed.writes
  have grown := writesMany_extends committed.writes
  obtain ⟨between, inserted, rfl⟩ := committed.between
  exact ⟨claimed_advance claimed inserted.runs checkpointId wellFormed, grown⟩

theorem createToolRound_moves (claimed : frame.Claimed prepared) {roundId : ToolRoundId}
    {assistant : ToolRoundAssistant} {calls : List ToolCall} {createdAtMs : Option Nat} {nowMs : Int}
    {expected : CheckpointId}
    (ran : createToolRound roundId prepared.runId expected assistant calls createdAtMs nowMs
      frame.store = .ok ((), store)) : frame.Moves prepared { frame with store } [] [] := by
  obtain ⟨-, -, free, -, -, created⟩ := createToolRound_ok ran
  have wrote : WritesMany frame.store store := by
    rw [created]
    exact .single (.toolRounds _)
  refine claimed.rests (wellFormed_writesMany claimed.wellFormed wrote) (writesMany_extends wrote)
    ?_ rfl
  rw [created]
  refine .toolRound (fun round found => ?_) _
  rw [free] at found
  cases found

theorem commitToolResult_moves (claimed : frame.Claimed prepared) {roundId : ToolRoundId}
    {result : ToolResult} {round : ToolRoundRow} {call : ToolRoundCallRow} {expected : CheckpointId}
    {commit : ToolCommit}
    (committed : ResultCommitted frame.store store prepared.conversationId prepared.runId roundId
      result round call expected commit) :
    frame.Moves prepared { frame with store, checkpoint := commit.checkpointId }
      [assistantPart roundId round.assistant round.nextCompletionSeq call,
        resultMessage roundId call result]
      [[assistantPart roundId round.assistant round.nextCompletionSeq call,
        resultMessage roundId call result]] := by
  obtain ⟨row, found, -, head⟩ := claimed.run
  obtain ⟨row', found', named⟩ := committed.head
  rw [found] at found'
  cases found'
  obtain ⟨above, between, aboveNamed, done, same⟩ := committed.between
  have moves := committed_moves claimed (aboveNamed.trans (named.symm.trans head)) done
  have wellFormed := wellFormed_writesMany claimed.wellFormed committed.writes
  subst same
  exact ⟨⟨wellFormed, moves.claimed.run⟩, writesMany_extends committed.writes, moves.chain,
    moves.path⟩

theorem appendMessagesOnce_moves (claimed : frame.Claimed prepared)
    {messages : List CanonicalMessage} {appended : List (CheckpointId × Bool)}
    (ran : appendMessagesOnce prepared.conversationId prepared.runId frame.checkpoint
      (frame.chain.map chainIdentity) messages frame.store = .ok (appended, store)) :
    frame.Moves prepared
      { frame with store, checkpoint := (appended.getLast?.map (·.1)).getD frame.checkpoint }
      ((newMessages frame.chain messages).map (·.payload))
      ((newMessages frame.chain messages).inits.map (·.map (·.payload))) := by
  by_cases empty : messages = []
  · rw [appendMessagesOnce, appendMessagesWith, if_pos empty] at ran
    obtain ⟨rfl, rfl⟩ := pure_ok.mp ran
    subst empty
    have rests : frame.Moves prepared frame [] [] :=
      claimed.rests claimed.wellFormed (.refl _) (.frame rfl rfl) rfl
    exact { rests with path := fun row listed => .inl listed }
  have done := appendMessagesOnce_ok claimed.wellFormed empty ran
  have wellFormed := wellFormed_writesMany claimed.wellFormed done.writes
  have grown := writesMany_extends done.writes
  obtain ⟨between, state, rfl, loop, same⟩ := done.between
  have inserted := loop.fresh frame.chain rfl
  rw [loop.last]
  -- the batch moved the run on, or every message of it was there
  have load : ∀ checkpointId, store.loadCheckpointMessages checkpointId =
      between.loadCheckpointMessages checkpointId := by
    intro checkpointId
    rw [same]
    split <;> rfl
  have lineage : store.lineage state.head = between.lineage state.head := by
    rw [same]
    split <;> rfl
  constructor
  case claimed =>
    by_cases unmoved : state.head = frame.checkpoint
    · rw [if_pos unmoved] at same
      exact claimed.leaves wellFormed (.frame (same ▸ loop.runs) (same ▸ loop.toolRounds)) unmoved
    · rw [if_neg unmoved] at same
      subst same
      exact claimed_advance claimed loop.runs state.head wellFormed
  case extends' => exact grown
  case chain =>
    rw [← inserted]
    exact (load state.head).trans loop.chain
  case path =>
    intro row listed
    rcases loop.path row (lineage ▸ listed) with old | ⟨part, prefixed, equal⟩
    · exact .inl old
    · rw [inserted] at prefixed
      refine .inr ⟨part.map CanonicalMessage.payload, ?_, (load row.checkpointId).trans equal⟩
      exact List.mem_map_of_mem ((List.mem_inits _ _).mpr prefixed)

end Commits

/-- A run that has claimed its conversation and has done nothing yet. -/
def sampleFrame : Frame HistoryDigest :=
  { store := (Operation.claimRun (samplePrepared "first") 0).apply Store.empty
    port := .new
    checkpoint := ⟨1⟩
    accounted := [] }

theorem claimed_sample : sampleFrame.Claimed (samplePrepared "first") where
  wellFormed := wellFormed_of_reachable
    ⟨Store.empty, [.claimRun (samplePrepared "first") 0], rfl, .single rfl⟩
  run := ⟨claimedRow (samplePrepared "first") 0, rfl, rfl, rfl⟩

end Byok
