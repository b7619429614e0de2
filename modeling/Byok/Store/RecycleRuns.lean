/-
**Conversations that are recycled between operations.** `prune_inactive_storage` of `server/src/store/retention.rs`, in
any run of operations and recyclings.

The source takes conversations that nobody has used for long and that have no active run, and only so many at once; here
they are any.

* `WellFormed.recycle` — what is left is well formed.
* `recycle_referential` — the foreign keys hold after every statement.
* `histories_stay` — the other conversations keep their histories.
-/

import Byok.Store.Homed
import Byok.Store.Isolation

set_option linter.unusedSectionVars false

namespace Byok

open Library Transaction

variable {D : Type} [DecidableEq D] [ChainHash D]

namespace Store

/-! ### What recycling leaves -/

section Recycled

variable {expired : List ConversationId} {conversationId : ConversationId} {store : Store D}

theorem mem_recycle_checkpoints {row : CheckpointRow D} :
    row ∈ (store.recycle expired).checkpoints ↔ row ∈ store.checkpoints ∧ row.conversationId ∉ expired := by
  rw [Store.recycle]
  simp [List.mem_filter]

theorem recycle_conversations (other : conversationId ∉ expired) :
    (store.recycle expired).conversations conversationId = store.conversations conversationId := by
  rw [Store.recycle]
  exact if_neg other

theorem recycle_run {runId : RunId} {run : RunRow} :
    (store.recycle expired).runs runId = some run ↔ store.runs runId = some run ∧ run.conversationId ∉ expired := by
  rw [Store.recycle]
  simp [Option.filter_eq_some_iff]

theorem recycle_message? (other : conversationId ∉ expired) (messageId : String) :
    (store.recycle expired).message? conversationId messageId = store.message? conversationId messageId := by
  rw [Store.recycle, message?, message?, List.find?_filter]
  refine congrArg (Option.map _) (congrArg (List.find? · _) (funext fun row => ?_))
  by_cases home : row.conversationId = conversationId
  · simp [home, other]
  · simp [home]

theorem recycle_additions {row : CheckpointRow D} (other : row.conversationId ∉ expired) :
    (store.recycle expired).additions row = store.additions row :=
  List.filterMap_congr fun messageId _ => recycle_message? other messageId

theorem Belongs.recycle {checkpointId : CheckpointId} (belongs : store.Belongs checkpointId conversationId)
    (other : conversationId ∉ expired) : (store.recycle expired).Belongs checkpointId conversationId := by
  obtain ⟨row, listed, named, rfl⟩ := belongs
  exact ⟨row, mem_recycle_checkpoints.mpr ⟨listed, other⟩, named, rfl⟩

theorem keepsParents_recycle (chained : store.Chained) (expired : List ConversationId) :
    KeepsParents CheckpointRow.checkpointId CheckpointRow.parentCheckpointId store.checkpoints
      (·.conversationId ∉ expired) := by
  intro row listed stays parent linked other there named
  obtain ⟨above, member, same, home, -⟩ := chained.linked row listed parent linked
  obtain rfl := chained.grown.key_injective there member (named.trans same.symm)
  simpa only [home] using stays

theorem recycle_checkpoints : (store.recycle expired).checkpoints =
    store.checkpoints.filter (·.conversationId ∉ expired) := by
  rw [Store.recycle]

theorem Chained.recycle (chained : store.Chained) (expired : List ConversationId) :
    (store.recycle expired).Chained := by
  constructor
  case grown =>
    rw [recycle_checkpoints]
    exact chained.grown.filter (keepsParents_recycle chained expired)
  case bounded =>
    intro row listed
    rw [Store.recycle]
    exact chained.bounded row (mem_recycle_checkpoints.mp listed).1
  case linked =>
    intro row listed parent link
    obtain ⟨before, other⟩ := mem_recycle_checkpoints.mp listed
    obtain ⟨above, member, named, home, smaller, digest⟩ := chained.linked row before parent link
    rw [recycle_additions other]
    exact ⟨above, mem_recycle_checkpoints.mpr ⟨member, home ▸ other⟩, named, home, smaller, digest⟩
  case rooted => exact fun row listed => chained.rooted row (mem_recycle_checkpoints.mp listed).1
  case stored =>
    intro row listed messageId added
    obtain ⟨before, other⟩ := mem_recycle_checkpoints.mp listed
    rw [recycle_message? other]
    exact chained.stored row before messageId added
  case distinct => exact fun row listed => chained.distinct row (mem_recycle_checkpoints.mp listed).1
  case messages =>
    rw [Store.recycle]
    exact chained.messages.filter _
  case digests =>
    rw [recycle_checkpoints]
    exact chained.digests.filter _
  case home =>
    intro row listed
    obtain ⟨before, other⟩ := mem_recycle_checkpoints.mp listed
    rw [recycle_conversations other]
    exact chained.home row before
  case root =>
    intro conversationId known
    have other : conversationId ∉ expired := by
      intro gone
      rw [Store.recycle] at known
      simp [gone] at known
    rw [recycle_conversations other] at known
    obtain ⟨row, listed, home, root⟩ := chained.root conversationId known
    exact ⟨row, mem_recycle_checkpoints.mpr ⟨listed, home ▸ other⟩, home, root⟩

theorem recycle_known {row : ConversationRow} (found : (store.recycle expired).conversations conversationId = some row) :
    conversationId ∉ expired ∧ store.conversations conversationId = some row := by
  by_cases gone : conversationId ∈ expired
  · rw [Store.recycle] at found
    simp [gone] at found
  · rw [recycle_conversations gone] at found
    exact ⟨gone, found⟩

theorem Owned.recycle (owned : store.Owned) (expired : List ConversationId) : (store.recycle expired).Owned := by
  constructor
  case current =>
    intro conversationId row found
    obtain ⟨other, found⟩ := recycle_known found
    obtain ⟨checkpointId, current, belongs⟩ := owned.current conversationId row found
    exact ⟨checkpointId, current, belongs.recycle other⟩
  case active =>
    intro conversationId row runId found active
    obtain ⟨other, found⟩ := recycle_known found
    obtain ⟨run, stored, status, home, current⟩ := owned.active conversationId row runId found active
    exact ⟨run, recycle_run.mpr ⟨stored, home ▸ other⟩, status, home, current⟩
  case running =>
    intro runId run found status
    obtain ⟨found, other⟩ := recycle_run.mp found
    rw [recycle_conversations other]
    exact owned.running runId run found status
  case head =>
    intro runId run found
    obtain ⟨found, other⟩ := recycle_run.mp found
    exact (owned.head runId run found).recycle other

/-- **What is left is well formed.** -/
theorem WellFormed.recycle (wellFormed : store.WellFormed) (expired : List ConversationId) :
    (store.recycle expired).WellFormed :=
  ⟨wellFormed.chained.recycle expired, wellFormed.owned.recycle expired⟩

theorem Homed.recycle (homed : store.Homed) (expired : List ConversationId) : (store.recycle expired).Homed := by
  constructor
  case messages =>
    intro row listed
    have kept : row ∈ store.messages ∧ row.conversationId ∉ expired := by
      rw [Store.recycle] at listed
      simpa [List.mem_filter] using listed
    rw [recycle_conversations kept.2]
    exact homed.messages row kept.1
  case base =>
    intro runId run found
    obtain ⟨found, other⟩ := recycle_run.mp found
    exact (homed.base runId run found).recycle other
  case rounds =>
    intro roundId round found
    have kept : store.toolRounds roundId = some round ∧ store.ofExpired expired round.runId = false := by
      rw [Store.recycle] at found
      simpa [Option.filter_eq_some_iff] using found
    obtain ⟨run, stored, base, calls⟩ := homed.rounds roundId round kept.1
    have other : run.conversationId ∉ expired := by
      have stays := kept.2
      simpa [ofExpired, stored] using stays
    exact ⟨run, recycle_run.mpr ⟨stored, other⟩, base.recycle other,
      fun call listed committed done => (calls call listed committed done).recycle other⟩

theorem load_recycle (wellFormed : store.WellFormed) {row : CheckpointRow D} (listed : row ∈ store.checkpoints)
    (other : row.conversationId ∉ expired) :
    (store.recycle expired).loadCheckpointMessages row.checkpointId = store.loadCheckpointMessages row.checkpointId := by
  have path : (store.recycle expired).lineage row.checkpointId = store.lineage row.checkpointId := by
    unfold lineage
    rw [recycle_checkpoints]
    exact ancestry_filter wellFormed.chained.grown (keepsParents_recycle wellFormed.chained expired) listed
      (decide_eq_true other)
  rw [loadCheckpointMessages, path, loadCheckpointMessages]
  refine List.flatMap_congr fun above member => recycle_additions ?_
  rw [lineage_home wellFormed listed member]
  exact other

end Recycled

end Store

open Store

/-! ### Over whole runs -/

/-- An operation of the store, or conversations that are recycled. -/
inductive StoreStep where
  | operation (operation : Operation)
  | recycle (expired : List ConversationId)

/-- The store, all who use it, and its retention. -/
def retainingSystem (D : Type) [DecidableEq D] [ChainHash D] : System (Store D) StoreStep where
  initial store := store = Store.empty
  step store label after :=
    match label with
    | .operation operation => after = operation.apply store
    | .recycle expired => after = store.recycle expired

/-- The runs that do not recycle a conversation. -/
def retaining (D : Type) [DecidableEq D] [ChainHash D] (conversationId : ConversationId) : System (Store D) StoreStep :=
  (retainingSystem D).confine fun _ label _ => ∀ expired, label = .recycle expired → conversationId ∉ expired

/-- The store is well formed, and what is stored stays with its conversation. -/
structure Retained (store : Store D) : Prop where
  wellFormed : store.WellFormed
  homed : store.Homed

theorem Retained.step {store after : Store D} (retained : Retained store) {label : StoreStep}
    (step : (retainingSystem D).step store label after) : Retained after := by
  cases label with
  | operation operation =>
    obtain rfl : after = operation.apply store := step
    rcases ran : operation.transaction store with error | ⟨done, after⟩
    · rw [Operation.apply_of_error ran]
      exact retained
    · rw [Operation.apply_of_ok ran]
      exact ⟨wellFormed_writesMany retained.wellFormed (Operation.writes retained.wellFormed ran),
        retained.homed.operation retained.wellFormed ran⟩
  | recycle expired =>
    obtain rfl : after = store.recycle expired := step
    exact ⟨retained.wellFormed.recycle expired, retained.homed.recycle expired⟩

theorem retained_of_reachable {store : Store D} (reachable : (retainingSystem D).Reachable store) : Retained store := by
  refine System.reachable_invariant (fun _ start => ?_) (fun _ _ _ retained step => retained.step step) reachable
  rw [start]
  exact ⟨wellFormed_empty, List.forall_mem_nil _, fun _ run there => absurd there (Option.some_ne_none run).symm,
    fun _ round there => absurd there (Option.some_ne_none round).symm⟩

/-- **The foreign keys hold after every statement of a recycling**, whatever operations and
recyclings were before it; and in the end the tables are those of the other conversations. -/
theorem recycle_referential {store : Store D} (reachable : (retainingSystem D).Reachable store)
    (expired : List ConversationId) :
    (∀ done, done <+: Tables.recycleStatements expired →
      (Tables.executeAll done store.tables).Referential) ∧
    Tables.executeAll (Tables.recycleStatements expired) store.tables =
      (store.recycle expired).tables ∧
    ∀ conversationId ∈ expired, (store.recycle expired).tables.Gone conversationId := by
  have retained := retained_of_reachable reachable
  have confined := retained.homed.confined retained.wellFormed
  exact ⟨fun done begun => (confined.stages expired begun).referential, executeAll_tables store,
    fun conversationId => gone_recycle store⟩

/-- A run of another conversation, prepared at its root. -/
def sampleOther : PreparedRun :=
  { samplePrepared "other" with conversationId := ⟨"other"⟩, baseCheckpointId := ⟨4⟩ }

/-- A conversation whose run has had the result of a tool, and another one with a question. -/
def sampleStored : Store HistoryDigest :=
  [.claimRun (samplePrepared "first") 0,
    .appendCheckpoint ⟨"conversation"⟩ ⟨"first"⟩ ⟨1⟩ [sampleAsked "question" "what?"],
    .createToolRound ⟨"first:round:0"⟩ ⟨"first"⟩ ⟨2⟩ ⟨"looking", "", "model-call", none⟩
      [⟨0, "call", "model-call", "Read", "{}", .null, none⟩] none 0,
    .commitToolResult ⟨"conversation"⟩ ⟨"first"⟩ ⟨"first:round:0"⟩ ⟨"call", "text", false, none⟩,
    .claimRun sampleOther 1,
    .appendCheckpoint ⟨"other"⟩ ⟨"other"⟩ ⟨4⟩ [sampleAsked "hello" "hello"]].foldl
      (fun store operation => Operation.apply operation store) Store.empty

theorem sampleStored_reachable : (retainingSystem HistoryDigest).Reachable sampleStored :=
  ⟨Store.empty, [.operation _, .operation _, .operation _, .operation _, .operation _, .operation _],
    rfl, .cons rfl <| .cons rfl <| .cons rfl <| .cons rfl <| .cons rfl <| .single rfl⟩

theorem recycle_referential_sample :
    sampleStored.tables.checkpointMessages.map (fun row => (row.checkpointId, row.messageId)) =
      [(⟨2⟩, "question"), (⟨3⟩, "first:round:0:call:assistant"), (⟨3⟩, "first:round:0:call:result"),
        (⟨5⟩, "hello")] ∧
    (sampleStored.tables.toolRoundCalls ⟨"first:round:0"⟩).map (·.committedCheckpointId) =
      [some ⟨3⟩] ∧
    (Tables.executeAll ((Tables.recycleStatements [⟨"conversation"⟩]).take 5)
      sampleStored.tables).Referential ∧
    (sampleStored.recycle [⟨"conversation"⟩]).tables.Gone ⟨"conversation"⟩ := by
  obtain ⟨stages, -, gone⟩ := recycle_referential sampleStored_reachable [⟨"conversation"⟩]
  exact ⟨by decide +kernel, by decide +kernel, stages _ (List.take_prefix 5 _),
    gone _ (List.mem_singleton.mpr rfl)⟩

/-- Every checkpoint of the conversation is still there, with its history. -/
def HistoriesStay (conversationId : ConversationId) (store after : Store D) : Prop :=
  ∀ checkpointId, store.Belongs checkpointId conversationId → after.Belongs checkpointId conversationId ∧
    after.loadCheckpointMessages checkpointId = store.loadCheckpointMessages checkpointId

theorem HistoriesStay.step {conversationId : ConversationId} {store after : Store D} (retained : Retained store)
    {label : StoreStep} (step : (retaining D conversationId).step store label after) :
    HistoriesStay conversationId store after := by
  obtain ⟨step, spares⟩ := step
  rintro _ ⟨row, listed, rfl, rfl⟩
  cases label with
  | operation operation =>
    obtain rfl : after = operation.apply store := step
    have wrote := operation.apply_writes retained.wellFormed
    have grown := writesMany_extends wrote
    exact ⟨⟨row, grown.checkpoints.subset listed, rfl, rfl⟩,
      load_extends retained.wellFormed (wellFormed_writesMany retained.wellFormed wrote) grown listed⟩
  | recycle expired =>
    obtain rfl : after = store.recycle expired := step
    have other := spares expired rfl
    exact ⟨⟨row, mem_recycle_checkpoints.mpr ⟨listed, other⟩, rfl, rfl⟩, load_recycle retained.wellFormed listed other⟩

/-- **The histories of a conversation stay** through every run of operations and recyclings in which it is not recycled
itself. -/
theorem histories_stay {conversationId : ConversationId} {first last : Store D} {labels : List StoreStep}
    (reachable : (retainingSystem D).Reachable first) (run : (retaining D conversationId).Run first labels last) :
    HistoriesStay conversationId first last := by
  refine (System.run_relates Retained (fun _ _ belongs => ⟨belongs, rfl⟩) ?_ ?_ (retained_of_reachable reachable) run).2
  · intro first second third one two checkpointId belongs
    obtain ⟨middle, same⟩ := one checkpointId belongs
    obtain ⟨later, again⟩ := two checkpointId middle
    exact ⟨later, again.trans same⟩
  · exact fun store label after retained step => ⟨retained.step step.1, .step retained step⟩

/-- The first conversation of the sample is recycled, and the other one goes on. -/
def sampleGoesOn : Store HistoryDigest :=
  Operation.apply (.appendCheckpoint ⟨"other"⟩ ⟨"other"⟩ ⟨5⟩ [sampleAsked "again" "and again"])
    (sampleStored.recycle [⟨"conversation"⟩])

theorem histories_stay_sample :
    HistoriesStay ⟨"other"⟩ sampleStored sampleGoesOn ∧
    (sampleStored.conversations ⟨"conversation"⟩).isSome ∧
    sampleGoesOn.conversations ⟨"conversation"⟩ = none ∧
    (sampleGoesOn.loadCheckpointMessages ⟨5⟩).map (·.messageId) = ["hello"] := by
  have recycled : (retaining HistoryDigest ⟨"other"⟩).step sampleStored (.recycle [⟨"conversation"⟩])
      (sampleStored.recycle [⟨"conversation"⟩]) := by
    refine ⟨rfl, ?_⟩
    rintro _ ⟨⟩
    decide
  have appended : (retaining HistoryDigest ⟨"other"⟩).step (sampleStored.recycle [⟨"conversation"⟩])
      (.operation (.appendCheckpoint ⟨"other"⟩ ⟨"other"⟩ ⟨5⟩ [sampleAsked "again" "and again"]))
      sampleGoesOn := ⟨rfl, nofun⟩
  exact ⟨histories_stay sampleStored_reachable (.cons recycled (.single appended)),
    by decide +kernel, by decide +kernel, by decide +kernel⟩

end Byok
