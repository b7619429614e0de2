/-
**The checkpoint chain.**

In every reachable store each conversation has one root, every other checkpoint lies below an
earlier checkpoint of its conversation with the digest chained from it, and the history of a
checkpoint is the same list in every later store (`checkpoint_chain`).
-/

import Byok.Store.Operations
import Mathlib.Data.List.Pairwise

set_option linter.unusedSectionVars false

namespace Byok

open Library Store

variable {D : Type} [DecidableEq D] [ChainHash D]

section Laws

variable {store after : Store D}

theorem digest_injective (chained : store.Chained) {first second : CheckpointRow D}
    (member : first ∈ store.checkpoints) (other : second ∈ store.checkpoints)
    (home : first.conversationId = second.conversationId)
    (digest : first.stateDigest = second.stateDigest) : first = second := by
  by_contra different
  have : Std.Symm fun first second : CheckpointRow D =>
      first.conversationId = second.conversationId → first.stateDigest ≠ second.stateDigest :=
    ⟨fun _ _ apart same equal => apart same.symm equal.symm⟩
  exact chained.digests.forall member other different home digest

theorem root_unique (chained : store.Chained) {first second : CheckpointRow D}
    (member : first ∈ store.checkpoints) (other : second ∈ store.checkpoints)
    (home : first.conversationId = second.conversationId) (top : first.parentCheckpointId = none)
    (top' : second.parentCheckpointId = none) : first = second := by
  refine digest_injective chained member other home ?_
  rw [(chained.rooted first member top).1, (chained.rooted second other top').1]

theorem additions_messageId (chained : store.Chained) {row : CheckpointRow D}
    (member : row ∈ store.checkpoints) :
    (store.additions row).map (·.messageId) = row.messageIds := by
  have resolved := chained.stored row member
  rw [additions]
  generalize row.messageIds = messageIds at resolved ⊢
  induction messageIds with
  | nil => rfl
  | cons messageId rest ih =>
    obtain ⟨message, found⟩ := resolved messageId List.mem_cons_self
    rw [List.filterMap_cons, found, List.map_cons,
      ih fun other listed => resolved other (List.mem_cons_of_mem _ listed)]
    obtain ⟨stored, selected, rfl⟩ := Option.map_eq_some_iff.mp found
    have named := List.find?_some selected
    simp only [Bool.and_eq_true, decide_eq_true_eq] at named
    rw [named.2]

end Laws

/-- The checkpoints of a store form one tree for each conversation, whose digests and histories
follow its branches, and no later operation changes a history. -/
structure CheckpointChain (store : Store D) : Prop where
  oneRoot : ∀ conversationId, (store.conversations conversationId).isSome →
    ∃! row, row ∈ store.checkpoints ∧ row.conversationId = conversationId ∧
      row.parentCheckpointId = none
  root : ∀ row ∈ store.checkpoints, row.parentCheckpointId = none →
    row.stateDigest = rootDigest ∧ store.loadCheckpointMessages row.checkpointId = []
  child : ∀ row ∈ store.checkpoints, ∀ parent ∈ row.parentCheckpointId,
    ∃ above ∈ store.checkpoints, above.checkpointId = parent ∧
      above.conversationId = row.conversationId ∧
      above.checkpointId.value < row.checkpointId.value ∧
      row.stateDigest = chainedDigest above.stateDigest (store.additions row) ∧
      store.loadCheckpointMessages row.checkpointId =
        store.loadCheckpointMessages parent ++ store.additions row
  additions : ∀ row ∈ store.checkpoints,
    (store.additions row).map (·.messageId) = row.messageIds
  forever : ∀ operations after, (storeSystem D).Run store operations after →
    ∀ row ∈ store.checkpoints, row ∈ after.checkpoints ∧
      after.additions row = store.additions row ∧
      after.loadCheckpointMessages row.checkpointId =
        store.loadCheckpointMessages row.checkpointId

/-- **The checkpoint chain invariant.** -/
theorem checkpoint_chain {store : Store D} (reachable : (storeSystem D).Reachable store) :
    CheckpointChain store := by
  have wellFormed := wellFormed_of_reachable reachable
  have chained := wellFormed.chained
  constructor
  case oneRoot =>
    intro conversationId known
    obtain ⟨root, member, home, top⟩ := chained.root conversationId known
    refine ⟨root, ⟨member, home, top⟩, fun other ⟨otherMember, otherHome, otherTop⟩ => ?_⟩
    exact root_unique chained otherMember member (otherHome.trans home.symm) otherTop top
  case root =>
    intro row member top
    exact ⟨(chained.rooted row member top).1, load_root wellFormed member top⟩
  case child =>
    intro row member parent link
    obtain ⟨above, aboveMember, named, home, earlier, digest⟩ :=
      chained.linked row member parent link
    exact ⟨above, aboveMember, named, home, earlier, digest, load_child wellFormed member parent link⟩
  case additions =>
    exact fun row member => additions_messageId chained member
  case forever =>
    intro operations after run row member
    obtain ⟨later, wrote⟩ := run_writes wellFormed run
    have grown := writesMany_extends wrote
    exact ⟨grown.checkpoints.subset member, chained.additions_eq grown.messages member,
      load_extends wellFormed later grown member⟩

/-- A run appends two messages and then one, and puts a summary under the root in place of them. -/
def sampleSummarized : Store HistoryDigest :=
  [.claimRun (samplePrepared "first") 0,
    .appendCheckpoint ⟨"conversation"⟩ ⟨"first"⟩ ⟨1⟩
      [sampleAsked "question" "what?", sampleAsked "more" "and then?"],
    .appendCheckpoint ⟨"conversation"⟩ ⟨"first"⟩ ⟨2⟩ [sampleAsked "last" "why?"],
    .replaceCheckpoint ⟨"conversation"⟩ ⟨"first"⟩ ⟨3⟩ [sampleAsked "summary" "so far"]].foldl
      (fun store operation => Operation.apply operation store) Store.empty

theorem checkpoint_chain_sample :
    CheckpointChain sampleSummarized ∧
    (sampleSummarized.checkpoints.map fun row => (row.checkpointId, row.parentCheckpointId)) =
      [(⟨1⟩, none), (⟨2⟩, some ⟨1⟩), (⟨3⟩, some ⟨2⟩), (⟨4⟩, some ⟨1⟩)] ∧
    (sampleSummarized.loadCheckpointMessages ⟨3⟩).map (·.messageId) = ["question", "more", "last"] ∧
    (sampleSummarized.loadCheckpointMessages ⟨4⟩).map (·.messageId) = ["summary"] :=
  ⟨checkpoint_chain ⟨Store.empty, _, rfl, .cons rfl <| .cons rfl <| .cons rfl <| .single rfl⟩,
    by decide +kernel, by decide +kernel, by decide +kernel⟩

end Byok
