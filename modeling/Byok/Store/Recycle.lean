/-
**Conversations that are recycled.** `server/src/store/retention.rs`: the statements of
`prune_inactive_storage` that delete conversations with all that is stored of them.

Every statement is about one table, and the database checks the foreign keys after each of them. A
`Store` keeps the calls of a round and the messages of a checkpoint with their row; here they are
tables of their own.

* `Referential` — the foreign keys hold.
* `Confined` — and what is stored of a conversation refers to rows of the same conversation only.
* `Confined.stages` — every statement leaves the tables confined.
* `executeAll_tables` — what is left.
-/

import Byok.Store.Operations

set_option linter.unusedSectionVars false

namespace Byok

open Library Transaction List

/-! ### The tables -/

/-- A row of `conversation_checkpoints`. -/
structure CheckpointColumns (D : Type) where
  checkpointId : CheckpointId
  conversationId : ConversationId
  parentCheckpointId : Option CheckpointId
  stateDigest : D
deriving DecidableEq, Repr

/-- A row of `checkpoint_messages`. -/
structure CheckpointMessageRow where
  checkpointId : CheckpointId
  ordinal : Nat
  conversationId : ConversationId
  messageId : String
deriving DecidableEq, Repr

/-- A row of `tool_rounds`. -/
structure ToolRoundColumns where
  runId : RunId
  baseCheckpointId : CheckpointId
  assistant : ToolRoundAssistant
  status : ToolRoundStatus
  version : Nat
  nextCompletionSeq : Nat
  createdAtMs : Int
deriving DecidableEq, Repr

/-- The tables row by row. The rows of `tool_round_calls` are found by their `round_id`. -/
@[ext]
structure Tables (D : Type) where
  conversations : ConversationId → Option ConversationRow
  messages : List MessageRow
  checkpoints : List (CheckpointColumns D)
  checkpointMessages : List CheckpointMessageRow
  runs : RunId → Option RunRow
  toolRounds : ToolRoundId → Option ToolRoundColumns
  toolRoundCalls : ToolRoundId → List ToolRoundCallRow

variable {D : Type} [DecidableEq D] [ChainHash D]

def CheckpointRow.columns (row : CheckpointRow D) : CheckpointColumns D :=
  ⟨row.checkpointId, row.conversationId, row.parentCheckpointId, row.stateDigest⟩

def CheckpointRow.messageRows (row : CheckpointRow D) : List CheckpointMessageRow :=
  row.messageIds.mapIdx fun ordinal messageId =>
    ⟨row.checkpointId, ordinal, row.conversationId, messageId⟩

def ToolRoundRow.columns (row : ToolRoundRow) : ToolRoundColumns :=
  ⟨row.runId, row.baseCheckpointId, row.assistant, row.status, row.version, row.nextCompletionSeq,
    row.createdAtMs⟩

/-- The tables of a store. -/
def Store.tables (store : Store D) : Tables D where
  conversations := store.conversations
  messages := store.messages
  checkpoints := store.checkpoints.map CheckpointRow.columns
  checkpointMessages := store.checkpoints.flatMap CheckpointRow.messageRows
  runs := store.runs
  toolRounds roundId := (store.toolRounds roundId).map ToolRoundRow.columns
  toolRoundCalls roundId := (store.toolRounds roundId).elim [] ToolRoundRow.calls

namespace Tables

/-! ### The statements -/

section Statements

variable (expired : List ConversationId) (tables : Tables D)

/-- `SELECT run_id FROM runs WHERE conversation_id IN (…)`: the run is of a conversation that
expires. -/
def ofExpired (runId : RunId) : Bool := (tables.runs runId).any (·.conversationId ∈ expired)

/-- `DELETE FROM tool_round_calls`. -/
def deleteToolRoundCalls : Tables D :=
  { tables with
    toolRoundCalls := fun roundId =>
      if (tables.toolRounds roundId).any (tables.ofExpired expired ·.runId) then []
      else tables.toolRoundCalls roundId }

/-- `DELETE FROM tool_rounds`. -/
def deleteToolRounds : Tables D :=
  { tables with
    toolRounds := fun roundId =>
      (tables.toolRounds roundId).filter fun round => !tables.ofExpired expired round.runId }

/-- `DELETE FROM runs`. -/
def deleteRuns : Tables D :=
  { tables with runs := fun runId => (tables.runs runId).filter (·.conversationId ∉ expired) }

/-- `DELETE FROM checkpoint_messages`. -/
def deleteCheckpointMessages : Tables D :=
  { tables with
    checkpointMessages := tables.checkpointMessages.filter (·.conversationId ∉ expired) }

/-- `UPDATE conversation_checkpoints SET parent_checkpoint_id = NULL`. -/
def detachCheckpoints : Tables D :=
  { tables with
    checkpoints := tables.checkpoints.map fun row =>
      if row.conversationId ∈ expired then { row with parentCheckpointId := none } else row }

/-- `DELETE FROM conversation_checkpoints`. -/
def deleteCheckpoints : Tables D :=
  { tables with checkpoints := tables.checkpoints.filter (·.conversationId ∉ expired) }

/-- `DELETE FROM messages`. -/
def deleteMessages : Tables D :=
  { tables with messages := tables.messages.filter (·.conversationId ∉ expired) }

/-- `DELETE FROM conversations`. -/
def deleteConversations : Tables D :=
  { tables with
    conversations := fun conversationId =>
      if conversationId ∈ expired then none else tables.conversations conversationId }

end Statements

/-- The statements in their order. -/
def recycleStatements (expired : List ConversationId) : List (Tables D → Tables D) :=
  [deleteToolRoundCalls expired, deleteToolRounds expired, deleteRuns expired,
    deleteCheckpointMessages expired, detachCheckpoints expired, deleteCheckpoints expired,
    deleteMessages expired, deleteConversations expired]

/-- Statements one after the other. -/
def executeAll (statements : List (Tables D → Tables D)) (tables : Tables D) : Tables D :=
  statements.foldl (fun tables statement => statement tables) tables

/-! ### Foreign keys -/

/-- There is a checkpoint with the id. -/
def HasCheckpoint (tables : Tables D) (checkpointId : CheckpointId) : Prop :=
  ∃ row ∈ tables.checkpoints, row.checkpointId = checkpointId

/-- There is a message with the id in the conversation. -/
def HasMessage (tables : Tables D) (conversationId : ConversationId) (messageId : String) : Prop :=
  ∃ row ∈ tables.messages, row.conversationId = conversationId ∧ row.message.messageId = messageId

/-- The foreign keys of the tables. -/
structure Referential (tables : Tables D) : Prop where
  messages : ∀ row ∈ tables.messages, (tables.conversations row.conversationId).isSome
  checkpoints : ∀ row ∈ tables.checkpoints, (tables.conversations row.conversationId).isSome ∧
    ∀ parent ∈ row.parentCheckpointId, tables.HasCheckpoint parent
  checkpointMessages : ∀ row ∈ tables.checkpointMessages, tables.HasCheckpoint row.checkpointId ∧
    tables.HasMessage row.conversationId row.messageId
  runs : ∀ runId run, tables.runs runId = some run →
    (tables.conversations run.conversationId).isSome ∧
      tables.HasCheckpoint run.baseCheckpointId ∧ tables.HasCheckpoint run.headCheckpointId
  toolRounds : ∀ roundId round, tables.toolRounds roundId = some round →
    (tables.runs round.runId).isSome ∧ tables.HasCheckpoint round.baseCheckpointId
  toolRoundCalls : ∀ roundId, ∀ call ∈ tables.toolRoundCalls roundId,
    (tables.toolRounds roundId).isSome ∧
      ∀ committed ∈ call.committedCheckpointId, tables.HasCheckpoint committed

/-- The checkpoint is one of the conversation. -/
def Belongs (tables : Tables D) (checkpointId : CheckpointId) (conversationId : ConversationId) :
    Prop :=
  ∃ row ∈ tables.checkpoints, row.checkpointId = checkpointId ∧ row.conversationId = conversationId

/-- The foreign keys hold, and what is stored of a conversation refers to rows of that
conversation. -/
structure Confined (tables : Tables D) : Prop where
  messages : ∀ row ∈ tables.messages, (tables.conversations row.conversationId).isSome
  checkpoints : ∀ row ∈ tables.checkpoints, (tables.conversations row.conversationId).isSome ∧
    ∀ parent ∈ row.parentCheckpointId, tables.Belongs parent row.conversationId
  checkpointMessages : ∀ row ∈ tables.checkpointMessages,
    tables.Belongs row.checkpointId row.conversationId ∧
      tables.HasMessage row.conversationId row.messageId
  runs : ∀ runId run, tables.runs runId = some run →
    (tables.conversations run.conversationId).isSome ∧
      tables.Belongs run.baseCheckpointId run.conversationId ∧
      tables.Belongs run.headCheckpointId run.conversationId
  toolRounds : ∀ roundId round, tables.toolRounds roundId = some round →
    ∃ run, tables.runs round.runId = some run ∧
      tables.Belongs round.baseCheckpointId run.conversationId
  toolRoundCalls : ∀ roundId, ∀ call ∈ tables.toolRoundCalls roundId,
    ∃ round run, tables.toolRounds roundId = some round ∧ tables.runs round.runId = some run ∧
      ∀ committed ∈ call.committedCheckpointId, tables.Belongs committed run.conversationId

/-- Nothing is left of the conversation. -/
structure Gone (tables : Tables D) (conversationId : ConversationId) : Prop where
  conversations : tables.conversations conversationId = none
  messages : ∀ row ∈ tables.messages, row.conversationId ≠ conversationId
  checkpoints : ∀ row ∈ tables.checkpoints, row.conversationId ≠ conversationId
  checkpointMessages : ∀ row ∈ tables.checkpointMessages, row.conversationId ≠ conversationId
  runs : ∀ runId run, tables.runs runId = some run → run.conversationId ≠ conversationId

section Deleting

variable {expired : List ConversationId} {tables after : Tables D}

theorem Belongs.hasCheckpoint {checkpointId : CheckpointId} {conversationId : ConversationId}
    (belongs : tables.Belongs checkpointId conversationId) : tables.HasCheckpoint checkpointId := by
  obtain ⟨row, listed, named, -⟩ := belongs
  exact ⟨row, listed, named⟩

theorem Confined.referential (confined : tables.Confined) : tables.Referential where
  messages := confined.messages
  checkpoints row listed := (confined.checkpoints row listed).imp id fun parents parent linked =>
    (parents parent linked).hasCheckpoint
  checkpointMessages row listed :=
    (confined.checkpointMessages row listed).imp Belongs.hasCheckpoint id
  runs runId run found := (confined.runs runId run found).imp id fun both =>
    ⟨both.1.hasCheckpoint, both.2.hasCheckpoint⟩
  toolRounds roundId round found := by
    obtain ⟨run, stored, base⟩ := confined.toolRounds roundId round found
    exact ⟨by rw [stored]; rfl, base.hasCheckpoint⟩
  toolRoundCalls roundId call listed := by
    obtain ⟨round, run, found, -, committed⟩ := confined.toolRoundCalls roundId call listed
    exact ⟨by rw [found]; rfl, fun checkpointId done => (committed checkpointId done).hasCheckpoint⟩

theorem Confined.deleteToolRoundCalls (confined : tables.Confined) :
    (tables.deleteToolRoundCalls expired).Confined := by
  refine { confined with toolRoundCalls := fun roundId call listed => ?_ }
  simp only [Tables.deleteToolRoundCalls] at listed
  split at listed
  · cases listed
  · exact confined.toolRoundCalls roundId call listed

theorem Confined.deleteToolRounds (confined : tables.Confined)
    (cleared : ∀ roundId, tables.toolRoundCalls roundId ≠ [] → ∀ round,
      tables.toolRounds roundId = some round → tables.ofExpired expired round.runId = false) :
    (tables.deleteToolRounds expired).Confined := by
  refine { confined with
    toolRounds := fun roundId round found =>
      confined.toolRounds roundId round (Option.filter_eq_some_iff.mp found).1
    toolRoundCalls := fun roundId call listed => ?_ }
  obtain ⟨round, run, found, rest⟩ := confined.toolRoundCalls roundId call listed
  have stays := cleared roundId (ne_nil_of_mem listed) round found
  exact ⟨round, run, Option.filter_eq_some_iff.mpr ⟨found, by rw [stays]; rfl⟩, rest⟩

theorem Confined.deleteRuns (confined : tables.Confined)
    (cleared : ∀ roundId round, tables.toolRounds roundId = some round →
      tables.ofExpired expired round.runId = false) : (tables.deleteRuns expired).Confined := by
  have stays {roundId : ToolRoundId} {round : ToolRoundColumns} {run : RunRow}
      (found : tables.toolRounds roundId = some round) (stored : tables.runs round.runId = some run) :
      (tables.deleteRuns expired).runs round.runId = some run := by
    have spared := cleared roundId round found
    simp only [ofExpired, stored, Option.any_some, decide_eq_false_iff_not] at spared
    exact Option.filter_eq_some_iff.mpr ⟨stored, decide_eq_true spared⟩
  refine { confined with
    runs := fun runId run found => confined.runs runId run (Option.filter_eq_some_iff.mp found).1
    toolRounds := fun roundId round found => ?_
    toolRoundCalls := fun roundId call listed => ?_ }
  · obtain ⟨run, stored, base⟩ := confined.toolRounds roundId round found
    exact ⟨run, stays found stored, base⟩
  · obtain ⟨round, run, found, stored, committed⟩ := confined.toolRoundCalls roundId call listed
    exact ⟨round, run, found, stays found stored, committed⟩

theorem Confined.deleteCheckpointMessages (confined : tables.Confined) :
    (tables.deleteCheckpointMessages expired).Confined :=
  { confined with
    checkpointMessages := fun row listed =>
      confined.checkpointMessages row (mem_filter.mp listed).1 }

theorem Confined.checkpoints_changed (confined : tables.Confined)
    {checkpoints : List (CheckpointColumns D)} (kept : ∀ row ∈ checkpoints,
      ∃ old ∈ tables.checkpoints, old.conversationId = row.conversationId ∧
        ∀ parent ∈ row.parentCheckpointId, parent ∈ old.parentCheckpointId)
    (stays : ∀ checkpointId conversationId,
      (∃ row ∈ checkpoints, row.conversationId = conversationId) ∨
        (∃ row ∈ tables.checkpointMessages, row.conversationId = conversationId) ∨
        (∃ runId run, tables.runs runId = some run ∧ run.conversationId = conversationId) →
      tables.Belongs checkpointId conversationId →
        ({ tables with checkpoints } : Tables D).Belongs checkpointId conversationId) :
    Confined { tables with checkpoints } := by
  constructor
  case messages => exact confined.messages
  case checkpoints =>
    intro row listed
    obtain ⟨old, before, home, fewer⟩ := kept row listed
    obtain ⟨known, parents⟩ := confined.checkpoints old before
    rw [home] at known parents
    exact ⟨known, fun parent linked =>
      stays _ _ (.inl ⟨row, listed, rfl⟩) (parents parent (fewer parent linked))⟩
  case checkpointMessages =>
    intro row listed
    exact (confined.checkpointMessages row listed).imp (stays _ _ (.inr (.inl ⟨row, listed, rfl⟩))) id
  case runs =>
    intro runId run found
    have some : ∃ runId other, tables.runs runId = some other ∧
        other.conversationId = run.conversationId := ⟨runId, run, found, rfl⟩
    obtain ⟨known, base, head⟩ := confined.runs runId run found
    exact ⟨known, stays _ _ (.inr (.inr some)) base, stays _ _ (.inr (.inr some)) head⟩
  case toolRounds =>
    intro roundId round found
    obtain ⟨run, stored, base⟩ := confined.toolRounds roundId round found
    exact ⟨run, stored, stays _ _ (.inr (.inr ⟨_, run, stored, rfl⟩)) base⟩
  case toolRoundCalls =>
    intro roundId call listed
    obtain ⟨round, run, found, stored, committed⟩ := confined.toolRoundCalls roundId call listed
    exact ⟨round, run, found, stored, fun checkpointId done =>
      stays _ _ (.inr (.inr ⟨_, run, stored, rfl⟩)) (committed checkpointId done)⟩

theorem Confined.detachCheckpoints (confined : tables.Confined) :
    (tables.detachCheckpoints expired).Confined := by
  refine confined.checkpoints_changed (fun row listed => ?_) fun checkpointId conversationId _ => ?_
  · obtain ⟨old, before, rfl⟩ := mem_map.mp listed
    refine ⟨old, before, ?_, ?_⟩
    · split <;> rfl
    · split
      · exact nofun
      · exact fun _ => id
  · rintro ⟨old, before, rfl, rfl⟩
    refine ⟨_, mem_map_of_mem before, ?_, ?_⟩
    · split <;> rfl
    · split <;> rfl

theorem Confined.deleteCheckpoints (confined : tables.Confined)
    (messages : ∀ row ∈ tables.checkpointMessages, row.conversationId ∉ expired)
    (runs : ∀ runId run, tables.runs runId = some run → run.conversationId ∉ expired) :
    (tables.deleteCheckpoints expired).Confined := by
  refine confined.checkpoints_changed (fun row listed => ?_) fun checkpointId conversationId named => ?_
  · exact ⟨row, (mem_filter.mp listed).1, rfl, fun _ => id⟩
  · rintro ⟨row, listed, rfl, rfl⟩
    refine ⟨row, mem_filter.mpr ⟨listed, decide_eq_true ?_⟩, rfl, rfl⟩
    rcases named with ⟨other, there, home⟩ | ⟨other, there, home⟩ | ⟨runId, run, found, home⟩
    · exact home ▸ of_decide_eq_true (mem_filter.mp there).2
    · exact home ▸ messages other there
    · exact home ▸ runs runId run found

theorem Confined.deleteMessages (confined : tables.Confined)
    (cleared : ∀ row ∈ tables.checkpointMessages, row.conversationId ∉ expired) :
    (tables.deleteMessages expired).Confined := by
  refine { confined with
    messages := fun row listed => confined.messages row (mem_filter.mp listed).1
    checkpointMessages := fun row listed => ?_ }
  obtain ⟨belongs, stored, there, home, named⟩ := confined.checkpointMessages row listed
  have other := cleared row listed
  exact ⟨belongs, stored, mem_filter.mpr ⟨there, decide_eq_true (home ▸ other)⟩, home, named⟩

theorem Confined.deleteConversations (confined : tables.Confined)
    (messages : ∀ row ∈ tables.messages, row.conversationId ∉ expired)
    (checkpoints : ∀ row ∈ tables.checkpoints, row.conversationId ∉ expired)
    (runs : ∀ runId run, tables.runs runId = some run → run.conversationId ∉ expired) :
    (tables.deleteConversations expired).Confined := by
  have stays {conversationId : ConversationId}
      (known : (tables.conversations conversationId).isSome) (other : conversationId ∉ expired) :
      ((tables.deleteConversations expired).conversations conversationId).isSome := by
    simpa only [Tables.deleteConversations, other, if_false] using known
  exact { confined with
    messages := fun row listed => stays (confined.messages row listed) (messages row listed)
    checkpoints := fun row listed => (confined.checkpoints row listed).imp
      (stays · (checkpoints row listed)) id
    runs := fun runId run found => (confined.runs runId run found).imp
      (stays · (runs runId run found)) id }

/-- **Every statement leaves the tables confined.** -/
theorem Confined.stages (confined : tables.Confined) (expired : List ConversationId)
    {done : List (Tables D → Tables D)} (begun : done <+: recycleStatements expired) :
    (executeAll done tables).Confined := by
  set first := executeAll ((recycleStatements expired).take 1) tables with hfirst
  set second := executeAll ((recycleStatements expired).take 2) tables with hsecond
  set third := executeAll ((recycleStatements expired).take 3) tables with hthird
  set fourth := executeAll ((recycleStatements expired).take 4) tables with hfourth
  set fifth := executeAll ((recycleStatements expired).take 5) tables with hfifth
  set sixth := executeAll ((recycleStatements expired).take 6) tables with hsixth
  set seventh := executeAll ((recycleStatements expired).take 7) tables with hseventh
  have noCalls : first.Confined := confined.deleteToolRoundCalls
  have noRounds : second.Confined := noCalls.deleteToolRounds fun roundId calls round found => by
    have found : tables.toolRounds roundId = some round := found
    refine Bool.eq_false_iff.mpr fun gone => calls ?_
    have gone : tables.ofExpired expired round.runId = true := gone
    exact if_pos (by rw [found, Option.any_some, gone])
  have noRuns : third.Confined := noRounds.deleteRuns fun roundId round found =>
    (Bool.not_eq_true' _).mp (Option.filter_eq_some_iff.mp found).2
  have runless (runId : RunId) (run : RunRow) (found : third.runs runId = some run) :
      run.conversationId ∉ expired :=
    of_decide_eq_true (Option.filter_eq_some_iff.mp found).2
  have noLinks : fourth.Confined := noRuns.deleteCheckpointMessages
  have linkless (row : CheckpointMessageRow) (listed : row ∈ fourth.checkpointMessages) :
      row.conversationId ∉ expired := of_decide_eq_true (mem_filter.mp listed).2
  have detached : fifth.Confined := noLinks.detachCheckpoints
  have noCheckpoints : sixth.Confined := detached.deleteCheckpoints linkless runless
  have bare (row : CheckpointColumns D) (listed : row ∈ sixth.checkpoints) :
      row.conversationId ∉ expired := of_decide_eq_true (mem_filter.mp listed).2
  have noMessages : seventh.Confined := noCheckpoints.deleteMessages linkless
  have gone := noMessages.deleteConversations
    (fun row listed => of_decide_eq_true (mem_filter.mp listed).2) bare runless
  simp only [recycleStatements, prefix_cons_iff, prefix_nil] at begun
  rcases begun with rfl | ⟨_, rfl, rfl | ⟨_, rfl, rfl | ⟨_, rfl, rfl | ⟨_, rfl, rfl | ⟨_, rfl, rfl |
    ⟨_, rfl, rfl | ⟨_, rfl, rfl | ⟨_, rfl, rfl⟩⟩⟩⟩⟩⟩⟩⟩
  · exact confined
  · exact noCalls
  · exact noRounds
  · exact noRuns
  · exact noLinks
  · exact detached
  · exact noCheckpoints
  · exact noMessages
  · exact gone

end Deleting

end Tables

/-! ### What is left -/

namespace Store

variable (expired : List ConversationId) (store : Store D)

/-- The run is of a conversation that expires. -/
def ofExpired (runId : RunId) : Bool := (store.runs runId).any (·.conversationId ∈ expired)

/-- The conversations are recycled: the rows of the others are left. -/
def recycle : Store D where
  conversations conversationId :=
    if conversationId ∈ expired then none else store.conversations conversationId
  messages := store.messages.filter (·.conversationId ∉ expired)
  checkpoints := store.checkpoints.filter (·.conversationId ∉ expired)
  nextCheckpointId := store.nextCheckpointId
  runs runId := (store.runs runId).filter (·.conversationId ∉ expired)
  toolRounds roundId :=
    (store.toolRounds roundId).filter fun round => !store.ofExpired expired round.runId

variable {expired}

theorem messageRows_home {row : CheckpointRow D} {other : CheckpointMessageRow}
    (listed : other ∈ row.messageRows) :
    other.checkpointId = row.checkpointId ∧ other.conversationId = row.conversationId ∧
      other.messageId ∈ row.messageIds := by
  obtain ⟨index, within, rfl⟩ := mem_mapIdx.mp listed
  exact ⟨rfl, rfl, getElem_mem within⟩

theorem checkpointMessages_recycle : (store.recycle expired).tables.checkpointMessages =
    store.tables.checkpointMessages.filter (·.conversationId ∉ expired) := by
  show (store.checkpoints.filter (·.conversationId ∉ expired)).flatMap CheckpointRow.messageRows =
    (store.checkpoints.flatMap CheckpointRow.messageRows).filter (·.conversationId ∉ expired)
  induction store.checkpoints with
  | nil => rfl
  | cons row rows ih =>
    rw [flatMap_cons, filter_append, ← ih]
    by_cases gone : row.conversationId ∈ expired
    · have none : row.messageRows.filter (·.conversationId ∉ expired) = [] := by
        refine filter_eq_nil_iff.mpr fun other listed => ?_
        rw [(messageRows_home listed).2.1]
        simpa using gone
      rw [filter_cons_of_neg (by simpa using gone), none, nil_append]
    · have all : row.messageRows.filter (·.conversationId ∉ expired) = row.messageRows := by
        refine filter_eq_self.mpr fun other listed => ?_
        rw [(messageRows_home listed).2.1]
        simpa using gone
      rw [filter_cons_of_pos (by simpa using gone), flatMap_cons, all]

theorem checkpoints_recycle : (store.recycle expired).tables.checkpoints =
    (store.tables.detachCheckpoints expired).checkpoints.filter (·.conversationId ∉ expired) := by
  show (store.checkpoints.filter (·.conversationId ∉ expired)).map CheckpointRow.columns =
    ((store.checkpoints.map CheckpointRow.columns).map _).filter _
  induction store.checkpoints with
  | nil => rfl
  | cons row rows ih =>
    by_cases gone : row.conversationId ∈ expired
    · simpa [gone, CheckpointRow.columns] using ih
    · simpa [gone, CheckpointRow.columns] using ih

theorem toolRounds_recycle (roundId : ToolRoundId) : (store.recycle expired).tables.toolRounds roundId =
    (store.tables.deleteToolRounds expired).toolRounds roundId := by
  show ((store.toolRounds roundId).filter _).map ToolRoundRow.columns =
    ((store.toolRounds roundId).map ToolRoundRow.columns).filter _
  cases store.toolRounds roundId with
  | none => rfl
  | some round =>
    rw [Option.map_some, Option.filter_some, Option.filter_some]
    show _ = if (!store.ofExpired expired round.runId) = true then _ else _
    split <;> rfl

theorem toolRoundCalls_recycle (roundId : ToolRoundId) :
    (store.recycle expired).tables.toolRoundCalls roundId =
      (store.tables.deleteToolRoundCalls expired).toolRoundCalls roundId := by
  show ((store.toolRounds roundId).filter _).elim [] ToolRoundRow.calls =
    if ((store.toolRounds roundId).map ToolRoundRow.columns).any _ then []
    else (store.toolRounds roundId).elim [] ToolRoundRow.calls
  cases store.toolRounds roundId with
  | none => rfl
  | some round =>
    rw [Option.map_some, Option.filter_some, Option.any_some]
    show _ = if store.ofExpired expired round.runId = true then _ else _
    cases store.ofExpired expired round.runId <;> rfl

/-- **The statements leave the tables of the other conversations.** -/
theorem executeAll_tables : Tables.executeAll (Tables.recycleStatements expired) store.tables =
    (store.recycle expired).tables :=
  Tables.ext rfl rfl (checkpoints_recycle store).symm (checkpointMessages_recycle store).symm rfl
    (funext fun roundId => (toolRounds_recycle store roundId).symm)
    (funext fun roundId => (toolRoundCalls_recycle store roundId).symm)

/-- **Nothing is left of the conversations that are recycled.** -/
theorem gone_recycle {conversationId : ConversationId} (expires : conversationId ∈ expired) :
    (store.recycle expired).tables.Gone conversationId := by
  have apart {other : ConversationId} (spared : other ∉ expired) : other ≠ conversationId :=
    fun same => spared (same ▸ expires)
  constructor
  case conversations => exact if_pos expires
  case messages => exact fun row listed => apart (of_decide_eq_true (mem_filter.mp listed).2)
  case checkpoints =>
    rw [checkpoints_recycle]
    exact fun row listed => apart (of_decide_eq_true (mem_filter.mp listed).2)
  case checkpointMessages =>
    rw [checkpointMessages_recycle]
    exact fun row listed => apart (of_decide_eq_true (mem_filter.mp listed).2)
  case runs =>
    exact fun runId run found => apart (of_decide_eq_true (Option.filter_eq_some_iff.mp found).2)

end Store

end Byok
