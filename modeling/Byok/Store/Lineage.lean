/-
**The history of a checkpoint.**

In a well-formed store the history of a checkpoint is its parent's followed by its own additions
(`load_child`), the root's is empty (`load_root`), and no later write changes it (`load_extends`).
-/

import Byok.Store.WellFormed

set_option linter.unusedSectionVars false

namespace Byok

open Library

variable {D : Type} [DecidableEq D] [ChainHash D]

namespace Store

variable {store after : Store D}

theorem checkpoint?_of_mem (wellFormed : store.WellFormed) {row : CheckpointRow D}
    (member : row ∈ store.checkpoints) : store.checkpoint? row.checkpointId = some row :=
  wellFormed.chained.grown.lookup_member member

theorem lineage_eq (wellFormed : store.WellFormed) {row : CheckpointRow D}
    (member : row ∈ store.checkpoints) :
    store.lineage row.checkpointId =
      (match row.parentCheckpointId with
        | none => []
        | some parent => store.lineage parent) ++ [row] := by
  have path := ancestry_eq wellFormed.chained.grown member
  cases link : row.parentCheckpointId with
  | none =>
    rw [link] at path
    exact path
  | some parent =>
    rw [link] at path
    exact path

theorem lineage_extends (wellFormed : after.WellFormed) (grown : Extends store after)
    {row : CheckpointRow D} (member : row ∈ store.checkpoints) :
    after.lineage row.checkpointId = store.lineage row.checkpointId := by
  obtain ⟨more, equal⟩ := grown.checkpoints
  have chain := wellFormed.chained.grown
  rw [lineage, lineage, ← equal]
  rw [← equal] at chain
  exact ancestry_extend chain ⟨row, member, rfl⟩

theorem lineage_home (wellFormed : store.WellFormed) {row above : CheckpointRow D}
    (member : row ∈ store.checkpoints) (listed : above ∈ store.lineage row.checkpointId) :
    above.conversationId = row.conversationId := by
  induction bound : row.checkpointId.value using Nat.strongRecOn generalizing row with
  | _ value ih =>
    rw [lineage_eq wellFormed member] at listed
    rcases List.mem_append.mp listed with early | late
    · cases link : row.parentCheckpointId with
      | none => simp [link] at early
      | some parent =>
        rw [link] at early
        obtain ⟨next, nextMember, rfl, home, smaller, -⟩ :=
          wellFormed.chained.linked row member parent link
        rw [← home]
        exact ih next.checkpointId.value (bound ▸ smaller) nextMember early rfl
    · rw [List.mem_singleton.mp late]

theorem load_root (wellFormed : store.WellFormed) {row : CheckpointRow D}
    (member : row ∈ store.checkpoints) (root : row.parentCheckpointId = none) :
    store.loadCheckpointMessages row.checkpointId = [] := by
  rw [loadCheckpointMessages, lineage_eq wellFormed member, root]
  simp [additions, (wellFormed.chained.rooted row member root).2]

theorem load_child (wellFormed : store.WellFormed) {row : CheckpointRow D}
    (member : row ∈ store.checkpoints) (parent : CheckpointId)
    (link : row.parentCheckpointId = some parent) :
    store.loadCheckpointMessages row.checkpointId =
      store.loadCheckpointMessages parent ++ store.additions row := by
  rw [loadCheckpointMessages, lineage_eq wellFormed member, link, List.flatMap_append]
  simp [loadCheckpointMessages]

/-- **The history of a checkpoint never changes.** -/
theorem load_extends (before : store.WellFormed) (wellFormed : after.WellFormed)
    (grown : Extends store after) {row : CheckpointRow D} (member : row ∈ store.checkpoints) :
    after.loadCheckpointMessages row.checkpointId =
      store.loadCheckpointMessages row.checkpointId := by
  rw [loadCheckpointMessages, lineage_extends wellFormed grown member, loadCheckpointMessages]
  refine List.flatMap_congr fun above listed => ?_
  exact before.chained.additions_eq grown.messages (ancestry_subset listed)

theorem load_stored (wellFormed : store.WellFormed) {row : CheckpointRow D}
    (member : row ∈ store.checkpoints) {message : CanonicalMessage}
    (listed : message ∈ store.loadCheckpointMessages row.checkpointId) :
    store.message? row.conversationId message.messageId = some message := by
  obtain ⟨above, aboveListed, added⟩ := List.mem_flatMap.mp listed
  obtain ⟨messageId, -, found⟩ := List.mem_filterMap.mp added
  rw [lineage_home wellFormed member aboveListed] at found
  obtain ⟨stored, selected, rfl⟩ := Option.map_eq_some_iff.mp found
  have named := List.find?_some selected
  simp only [Bool.and_eq_true, decide_eq_true_eq] at named
  rw [named.2]
  exact found

end Store

end Byok
