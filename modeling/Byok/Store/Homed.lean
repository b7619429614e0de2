/-
**What is stored stays with its conversation.** The operations of `server/src/store`, as the foreign keys see them.

* `Inside` — what the operations inside one conversation keep, by the rules for transactions.
* `Homed.operation` — runs, tool rounds and their calls refer to checkpoints of their own conversation.
* `Homed.confined` — so the foreign keys hold.
-/

import Byok.Library.Preserves
import Byok.Store.Lineage
import Byok.Store.Ownership
import Byok.Store.Recycle

set_option linter.unusedSectionVars false

namespace Byok

open Library Transaction

variable {D : Type} [DecidableEq D] [ChainHash D]

/-- The row keeps its base and its conversation. -/
def RunRow.SameBase (row later : RunRow) : Prop :=
  later.baseCheckpointId = row.baseCheckpointId ∧ later.conversationId = row.conversationId

namespace RunRow.SameBase

theorem refl (row : RunRow) : row.SameBase row := ⟨rfl, rfl⟩

theorem cancel (row : RunRow) : row.SameBase row.cancel := by
  unfold RunRow.cancel
  split <;> exact ⟨rfl, rfl⟩

theorem finish (row : RunRow) (status : RunStatus) (failure : Option (String × String)) :
    row.SameBase (row.finish status failure) := by
  unfold RunRow.finish
  split <;> exact ⟨rfl, rfl⟩

theorem interrupt (row : RunRow) (processStartedAtMs : Int) : row.SameBase (row.interrupt processStartedAtMs) := by
  unfold RunRow.interrupt
  split <;> exact ⟨rfl, rfl⟩

end RunRow.SameBase

namespace Store

/-! ### What every operation keeps -/

section Keeping

variable {conversationId : ConversationId} {rounds : ToolRoundId → Option ToolRoundRow} {store after : Store D}

/-- The conversation is there, with those of all messages, and these are the tool rounds. -/
structure Inside (conversationId : ConversationId) (rounds : ToolRoundId → Option ToolRoundRow) (store : Store D) :
    Prop where
  known : (store.conversations conversationId).isSome
  messages : ∀ row ∈ store.messages, (store.conversations row.conversationId).isSome
  toolRounds : store.toolRounds = rounds

theorem Inside.frame (inside : Inside conversationId rounds store) (messages : after.messages = store.messages)
    (toolRounds : after.toolRounds = store.toolRounds)
    (conversations : ∀ other, (store.conversations other).isSome → (after.conversations other).isSome) :
    Inside conversationId rounds after :=
  ⟨conversations _ inside.known, fun row listed => conversations _ (inside.messages row (messages ▸ listed)),
    toolRounds.trans inside.toolRounds⟩

theorem isSome_update {conversations : ConversationId → Option ConversationRow} {changed other : ConversationId}
    {row : Option ConversationRow} (known : (conversations other).isSome)
    (stays : (conversations changed).isSome → row.isSome) :
    (Function.update conversations changed row other).isSome := by
  by_cases same : other = changed
  · subst same
    rw [Function.update_self]
    exact stays known
  · rw [Function.update_of_ne same]
    exact known

theorem putMessage_inside (message : CanonicalMessage) :
    Preserves (Inside (D := D) conversationId rounds) (putMessage conversationId message) := by
  intro store done after inside ran
  rcases putMessage_ok ran with ⟨-, rfl⟩ | ⟨-, rfl⟩
  · refine ⟨inside.known, fun row listed => ?_, inside.toolRounds⟩
    rcases List.mem_append.mp listed with old | new
    · exact inside.messages row old
    · rw [List.mem_singleton.mp new]
      exact inside.known
  · exact inside

theorem putMessages_inside (messages : List CanonicalMessage) :
    Preserves (Inside (D := D) conversationId rounds) (putMessages conversationId messages) := by
  induction messages with
  | nil => exact .pure ()
  | cons message messages ih => exact .bind (putMessage_inside message) fun _ => ih

theorem insertCheckpoint_inside (parent : CheckpointId) (additions : List CanonicalMessage) (digest : D) :
    Preserves (Inside conversationId rounds) (insertCheckpoint conversationId parent additions digest) := by
  refine .bind (putMessages_inside additions) fun _ store checkpointId after inside ran => ?_
  obtain ⟨-, rfl, -, -⟩ := insertCheckpointStatement_ok ran
  exact inside.frame rfl rfl fun _ => id

theorem advance_inside (runId : RunId) (checkpointId : CheckpointId) (inside : Inside conversationId rounds store) :
    Inside conversationId rounds (advance conversationId runId checkpointId store) :=
  inside.frame rfl rfl fun other known => isSome_update known fun there => by rwa [Option.isSome_map]

theorem updateHeads_inside (runId : RunId) (expected checkpointId : CheckpointId) (doing : String) :
    Preserves (Inside (D := D) conversationId rounds) (updateHeads conversationId runId expected checkpointId doing) :=
  .bind (.read _) fun _ => .bind (.require _ _) fun _ => .write fun _ inside => advance_inside runId checkpointId inside

theorem checkpointDigest_inside (checkpointId : CheckpointId) :
    Preserves (Inside (D := D) conversationId rounds) (checkpointDigest checkpointId) :=
  .bind (.read _) fun _ => .orFail _ _

theorem conversationRoot_inside (other : ConversationId) :
    Preserves (Inside (D := D) conversationId rounds) (conversationRoot other) :=
  .bind (.read _) fun _ => .orFail _ _

theorem requireActiveHead_inside (runId : RunId) (expected : CheckpointId) :
    Preserves (Inside (D := D) conversationId rounds) (requireActiveHead conversationId runId expected) :=
  .bind (.read _) fun _ => .require _ _

theorem appendCheckpointTx_inside (runId : RunId) (expected : CheckpointId) (additions : List CanonicalMessage) :
    Preserves (Inside (D := D) conversationId rounds) (appendCheckpointTx conversationId runId expected additions) :=
  .bind (checkpointDigest_inside expected) fun _ => .bind (requireActiveHead_inside runId expected) fun _ =>
    .bind (.read _) fun _ => .bind (.require _ _) fun _ => .bind (insertCheckpoint_inside _ _ _) fun _ =>
      .bind (updateHeads_inside _ _ _ _) fun _ => .pure _

theorem replaceCheckpoint_inside (runId : RunId) (expected : CheckpointId) (messages : List CanonicalMessage) :
    Preserves (Inside (D := D) conversationId rounds) (replaceCheckpoint conversationId runId expected messages) :=
  .bind (requireActiveHead_inside runId expected) fun _ => .bind (conversationRoot_inside _) fun _ =>
    .bind (checkpointDigest_inside _) fun _ => .bind (insertCheckpoint_inside _ _ _) fun _ =>
      .bind (updateHeads_inside _ _ _ _) fun _ => .pure _

theorem appendMessageOnce_inside (state : AppendState D) (message : CanonicalMessage) :
    Preserves (Inside conversationId rounds) (appendMessageOnce conversationId state message) := by
  unfold appendMessageOnce appendMessageWith
  split
  · exact .bind (.read _) fun _ => .bind (.require _ _) fun _ => .pure _
  · exact .bind (.read _) fun _ => .bind (.require _ _) fun _ => .bind (insertCheckpoint_inside _ _ _) fun _ => .pure _

theorem appendMessagesOnce_inside (runId : RunId) (expected : CheckpointId) (known : List ChainIdentity)
    (messages : List CanonicalMessage) :
    Preserves (Inside (D := D) conversationId rounds)
      (appendMessagesOnce conversationId runId expected known messages) := by
  unfold appendMessagesOnce appendMessagesWith
  split
  · exact .pure _
  · refine .bind (requireActiveHead_inside runId expected) fun _ => .bind (checkpointDigest_inside expected) fun _ =>
      .bind (.foldlM appendMessageOnce_inside messages _) fun state => ?_
    split
    · exact .pure _
    · exact .bind (updateHeads_inside _ _ _ _) fun _ => .pure _

theorem importParent_inside (current : CheckpointId) (messages : List CanonicalMessage) :
    Preserves (Inside (D := D) conversationId rounds) (importParent conversationId current messages) := by
  refine .bind (.read _) fun stored => ?_
  split
  · exact .pure _
  · exact .bind (conversationRoot_inside _) fun _ => .pure _

end Keeping

/-! ### What is stored refers to its own conversation -/

/-- What is stored of a conversation refers to rows of that conversation, also where a well-formed store does not say
so. -/
structure Homed (store : Store D) : Prop where
  messages : ∀ row ∈ store.messages, (store.conversations row.conversationId).isSome
  base : ∀ runId run, store.runs runId = some run → store.Belongs run.baseCheckpointId run.conversationId
  rounds : ∀ roundId round, store.toolRounds roundId = some round → ∃ run, store.runs round.runId = some run ∧
    store.Belongs round.baseCheckpointId run.conversationId ∧
    ∀ call ∈ round.calls, ∀ committed ∈ call.committedCheckpointId, store.Belongs committed run.conversationId

section Homed

variable {conversationId : ConversationId} {runId : RunId} {store after : Store D}

theorem belongs_tables {checkpointId : CheckpointId} (belongs : store.Belongs checkpointId conversationId) :
    store.tables.Belongs checkpointId conversationId := by
  obtain ⟨row, listed, named, home⟩ := belongs
  exact ⟨row.columns, List.mem_map_of_mem listed, named, home⟩

theorem Homed.confined (homed : store.Homed) (wellFormed : store.WellFormed) : store.tables.Confined := by
  have home {checkpointId : CheckpointId} {conversationId : ConversationId}
      (belongs : store.Belongs checkpointId conversationId) :
      (store.conversations conversationId).isSome := by
    obtain ⟨row, listed, -, rfl⟩ := belongs
    exact wellFormed.chained.home row listed
  constructor
  case messages => exact homed.messages
  case checkpoints =>
    intro _ listed
    obtain ⟨row, before, rfl⟩ := List.mem_map.mp listed
    refine ⟨wellFormed.chained.home row before, fun parent linked => belongs_tables ?_⟩
    obtain ⟨above, there, named, same, -⟩ := wellFormed.chained.linked row before parent linked
    exact ⟨above, there, named, same⟩
  case checkpointMessages =>
    intro link listed
    obtain ⟨row, before, member⟩ := List.mem_flatMap.mp listed
    obtain ⟨ofRow, sameHome, added⟩ := messageRows_home member
    refine ⟨belongs_tables ⟨row, before, ofRow.symm, sameHome.symm⟩, ?_⟩
    obtain ⟨message, found⟩ := wellFormed.chained.stored row before link.messageId added
    obtain ⟨stored, selected, rfl⟩ := Option.map_eq_some_iff.mp found
    have named := List.find?_some selected
    simp only [Bool.and_eq_true, decide_eq_true_eq] at named
    exact ⟨stored, List.mem_of_find?_eq_some selected, named.1.trans sameHome.symm, named.2⟩
  case runs =>
    intro runId run found
    have base := homed.base runId run found
    exact ⟨home base, belongs_tables base, belongs_tables (wellFormed.owned.head runId run found)⟩
  case toolRounds =>
    intro roundId _ found
    obtain ⟨round, before, rfl⟩ := Option.map_eq_some_iff.mp found
    obtain ⟨run, stored, base, -⟩ := homed.rounds roundId round before
    exact ⟨run, stored, belongs_tables base⟩
  case toolRoundCalls =>
    intro roundId call listed
    cases found : store.toolRounds roundId with
    | none =>
      simp only [tables, found, Option.elim_none, List.not_mem_nil] at listed
    | some round =>
      simp only [tables, found, Option.elim_some] at listed
      obtain ⟨run, stored, -, calls⟩ := homed.rounds roundId round found
      exact ⟨round.columns, run, by simp only [tables, found, Option.map_some], stored,
        fun committed done => belongs_tables (calls call listed committed done)⟩

/-- What the row of a run goes back to in one write: a row with its base, or a claim of a checkpoint. -/
theorem writes_origin (wrote : Writes store after) {owner : RunId} {run : RunRow} (found : after.runs owner = some run) :
    (∃ old, store.runs owner = some old ∧ old.SameBase run) ∨ store.Belongs run.baseCheckpointId run.conversationId := by
  have changed {owner : RunId} {change : RunRow → RunRow} (same : ∀ old : RunRow, old.SameBase (change old)) {run : RunRow}
      (found : (store.runs owner).map change = some run) : ∃ old, store.runs owner = some old ∧ old.SameBase run := by
    obtain ⟨old, before, rfl⟩ := Option.map_eq_some_iff.mp found
    exact ⟨old, before, same old⟩
  have updated {owner other : RunId} {change : RunRow → RunRow} (same : ∀ old : RunRow, old.SameBase (change old))
      {run : RunRow} (found : Function.update store.runs owner ((store.runs owner).map change) other = some run) :
      ∃ old, store.runs other = some old ∧ old.SameBase run := by
    by_cases here : other = owner
    · subst here
      rw [Function.update_self] at found
      exact changed same found
    · rw [Function.update_of_ne here] at found
      exact ⟨run, found, .refl run⟩
  cases wrote with
  | createConversation => exact .inl ⟨run, found, .refl run⟩
  | insertMessage => exact .inl ⟨run, found, .refl run⟩
  | insertCheckpoint => exact .inl ⟨run, found, .refl run⟩
  | advance row runId expected =>
    rw [advance_runs] at found
    refine .inl (updated ?_ found)
    exact fun _ => ⟨rfl, rfl⟩
  | claim prepared nowMs claimed member named belongs fresh =>
    rw [claim_runs] at found
    split at found
    · cases found
      exact .inr ⟨claimed, member, named, belongs⟩
    · split at found
      · exact .inl (changed .cancel found)
      · exact .inl ⟨run, found, .refl run⟩
  | finish runId row status failure => exact .inl (updated (.finish · status failure) found)
  | reconcile processStartedAtMs => exact .inl (changed (.interrupt · processStartedAtMs) found)
  | toolRounds => exact .inl ⟨run, found, .refl run⟩

theorem base_writes (wrote : Writes store after)
    (base : ∀ runId run, store.runs runId = some run → store.Belongs run.baseCheckpointId run.conversationId) :
    ∀ runId run, after.runs runId = some run → after.Belongs run.baseCheckpointId run.conversationId := by
  intro runId run found
  have grown := (writes_extends wrote).checkpoints
  rcases writes_origin wrote found with ⟨old, before, same, home⟩ | claimed
  · rw [same, home]
    exact (base runId old before).extends grown
  · exact claimed.extends grown

theorem base_writesMany (wrote : WritesMany store after)
    (base : ∀ runId run, store.runs runId = some run → store.Belongs run.baseCheckpointId run.conversationId) :
    ∀ runId run, after.runs runId = some run → after.Belongs run.baseCheckpointId run.conversationId := by
  induction wrote with
  | refl => exact base
  | tail _ last ih => exact base_writes last ih

theorem round_writesMany (wrote : WritesMany store after) {round : ToolRoundRow}
    (home : ∃ run, store.runs round.runId = some run ∧ store.Belongs round.baseCheckpointId run.conversationId ∧
      ∀ call ∈ round.calls, ∀ committed ∈ call.committedCheckpointId, store.Belongs committed run.conversationId) :
    ∃ run, after.runs round.runId = some run ∧ after.Belongs round.baseCheckpointId run.conversationId ∧
      ∀ call ∈ round.calls, ∀ committed ∈ call.committedCheckpointId, after.Belongs committed run.conversationId := by
  obtain ⟨run, found, base, calls⟩ := home
  obtain ⟨later, found, follows⟩ := writesMany_runsFollow wrote _ run found
  have grown := (writesMany_extends wrote).checkpoints
  rw [← follows.conversationId] at base calls
  exact ⟨later, found, base.extends grown, fun call listed committed done =>
    (calls call listed committed done).extends grown⟩

theorem Homed.kept (homed : store.Homed) (wrote : WritesMany store after)
    (messages : ∀ row ∈ after.messages, (after.conversations row.conversationId).isSome)
    (toolRounds : after.toolRounds = store.toolRounds) : after.Homed where
  messages := messages
  base := base_writesMany wrote homed.base
  rounds roundId round found := round_writesMany wrote (homed.rounds roundId round (toolRounds ▸ found))

theorem Homed.inside (homed : store.Homed) (wrote : WritesMany store after)
    (inside : Inside conversationId store.toolRounds after) : after.Homed :=
  homed.kept wrote inside.messages inside.toolRounds

theorem Homed.start (homed : store.Homed) (known : (store.conversations conversationId).isSome) :
    Inside conversationId store.toolRounds store := ⟨known, homed.messages, rfl⟩

theorem Homed.ensured (homed : store.Homed) (wellFormed : store.WellFormed) {current : CheckpointId}
    (ran : ensureConversation conversationId store = .ok (current, after)) :
    Inside conversationId store.toolRounds after := by
  obtain ⟨row, listed, -, home⟩ := ensureConversation_current wellFormed ran
  have known := (wellFormed_writesMany wellFormed (ensureConversation_writes ran)).chained.home row listed
  rw [home] at known
  rcases ensureConversation_ok ran with ⟨-, rfl⟩ | ⟨-, -, -, rfl⟩
  · exact homed.start known
  · exact ⟨known, fun row listed => isSome_update (homed.messages row listed) fun _ => rfl, rfl⟩

theorem imported_inside {messages : List CanonicalMessage} {checkpointId : CheckpointId} (homed : store.Homed)
    (wellFormed : store.WellFormed) (ran : importCheckpoint conversationId messages store = .ok (checkpointId, after)) :
    Inside conversationId store.toolRounds after := by
  obtain ⟨current, between, ensured, ran⟩ := bind_ok.mp ran
  refine (?_ : Preserves (Inside conversationId store.toolRounds) _) between checkpointId after
    (homed.ensured wellFormed ensured) ran
  refine .bind (importParent_inside current messages) fun placed => ?_
  split
  · exact .pure _
  · refine .bind (checkpointDigest_inside _) fun digest => .bind (.read _) fun existing => ?_
    cases existing with
    | some existing => exact .pure _
    | none => exact insertCheckpoint_inside _ _ _

theorem commitToolResult_appended {roundId : ToolRoundId} {result : ToolResult} {commit : ToolCommit}
    (ran : commitToolResult conversationId runId roundId result store = .ok (commit, after)) :
    ∃ round expected parts checkpoint between, store.toolRounds roundId = some round ∧ round.runId = runId ∧
      appendCheckpointTx conversationId runId expected parts store = .ok (checkpoint, between) ∧
      after = updateToolRound roundId (·.complete result checkpoint) between := by
  replace ran := read_bind_ok.mp ran
  obtain ⟨round, selected, ran⟩ := orFail_bind_ok.mp ran
  obtain ⟨found, owned⟩ := Option.filter_eq_some_iff.mp selected
  obtain ⟨-, ran⟩ := require_bind_ok.mp ran
  obtain ⟨_, -, ran⟩ := orFail_bind_ok.mp ran
  obtain ⟨-, ran⟩ := require_bind_ok.mp ran
  replace ran := read_bind_ok.mp ran
  obtain ⟨_, -, ran⟩ := orFail_bind_ok.mp ran
  obtain ⟨checkpoint, between, appended, ran⟩ := bind_ok.mp ran
  replace ran := write_bind_ok.mp ran
  obtain ⟨-, rfl⟩ := pure_ok.mp ran
  exact ⟨round, _, _, checkpoint, between, found, of_decide_eq_true owned, appended, rfl⟩

theorem Homed.commit (homed : store.Homed) (wellFormed : store.WellFormed) {roundId : ToolRoundId} {result : ToolResult}
    {commit : ToolCommit} (ran : commitToolResult conversationId runId roundId result store = .ok (commit, after)) :
    after.Homed := by
  obtain ⟨round, expected, parts, checkpoint, between, stored, owner, appended, rfl⟩ := commitToolResult_appended ran
  obtain ⟨above, -, committed⟩ := appendCheckpointTx_ok wellFormed appended
  have known : (store.conversations conversationId).isSome := by rw [committed.owner]; rfl
  have inside := appendCheckpointTx_inside _ _ _ _ _ _ (homed.start known) appended
  have middle : between.Homed := homed.inside committed.writes inside
  have well := wellFormed_writesMany wellFormed committed.writes
  refine ⟨middle.messages, middle.base, fun other row found => ?_⟩
  by_cases same : other = roundId
  · subst same
    rw [updateToolRound_toolRounds, Function.update_self, inside.toolRounds, stored] at found
    obtain rfl := Option.some.inj found
    obtain ⟨run, foundRun, base, calls⟩ := middle.rounds other round (inside.toolRounds ▸ stored)
    refine ⟨run, foundRun, base, fun call listed done => ?_⟩
    obtain ⟨old, before, rfl⟩ := List.mem_map.mp listed
    split
    · rintro ⟨⟩
      -- the run is the conversation's, where the checkpoint was inserted
      obtain ⟨last, inserted, rfl⟩ := committed.between
      obtain ⟨active, foundActive, -, home, -⟩ := well.owned.active conversationId ⟨some checkpoint, some runId⟩ runId
        (by rw [advance_conversations, Function.update_self, inserted.conversations, committed.owner]; rfl) rfl
      rw [owner, foundActive] at foundRun
      obtain rfl := Option.some.inj foundRun
      exact ⟨_, inserted.member, rfl, committed.home.trans home.symm⟩
    · exact calls old before done
  · rw [updateToolRound_toolRounds, Function.update_of_ne same] at found
    exact middle.rounds other row found

theorem Homed.create (homed : store.Homed) (wellFormed : store.WellFormed) {roundId : ToolRoundId}
    {baseCheckpointId : CheckpointId} {assistant : ToolRoundAssistant} {calls : List ToolCall} {createdAtMs : Option Nat}
    {nowMs : Int} {done : Unit}
    (ran : createToolRound roundId runId baseCheckpointId assistant calls createdAtMs nowMs store = .ok (done, after)) :
    after.Homed := by
  obtain ⟨-, owns, -, -, -, rfl⟩ := createToolRound_ok ran
  refine ⟨homed.messages, homed.base, fun other row found => ?_⟩
  by_cases same : other = roundId
  · subst same
    rw [insertToolRound_toolRounds, Function.update_self] at found
    obtain rfl := Option.some.inj found
    unfold ownsHead at owns
    split at owns
    · cases owns
    · rename_i run foundRun
      simp only [Bool.and_eq_true, decide_eq_true_eq] at owns
      refine ⟨run, foundRun, owns.1.1 ▸ wellFormed.owned.head runId run foundRun, fun call listed => ?_⟩
      obtain ⟨plain, -, rfl⟩ := List.mem_map.mp listed
      exact nofun
  · rw [insertToolRound_toolRounds, Function.update_of_ne same] at found
    exact homed.rounds other row found

/-- **What is stored stays with its conversation.** -/
theorem Homed.operation (homed : store.Homed) (wellFormed : store.WellFormed) {operation : Operation} {done : Unit}
    (ran : operation.transaction store = .ok (done, after)) : after.Homed := by
  have wrote := Operation.writes wellFormed ran
  cases operation with
  | ensureConversation =>
    obtain ⟨_, ran⟩ := ignore_ok.mp ran
    exact homed.inside wrote (homed.ensured wellFormed ran)
  | claimRun prepared nowMs =>
    obtain ⟨_, ran⟩ := ignore_ok.mp ran
    obtain ⟨_, between, ensured, -, -, rfl, -⟩ := claimRun_ok ran
    refine homed.inside wrote ((homed.ensured wellFormed ensured).frame (by simp) (by simp) fun other known => ?_)
    rw [claim_conversations]
    exact isSome_update known fun _ => rfl
  | appendMessagesOnce conversationId owner expected known messages =>
    obtain ⟨_, ran⟩ := ignore_ok.mp ran
    by_cases empty : messages = []
    · rw [Store.appendMessagesOnce, Store.appendMessagesWith, if_pos empty] at ran
      obtain ⟨-, rfl⟩ := pure_ok.mp ran
      exact homed
    · have owner := (appendMessagesOnce_ok wellFormed empty ran).owner
      exact homed.inside wrote (appendMessagesOnce_inside _ _ _ _ _ _ _ (homed.start (by rw [owner]; rfl)) ran)
  | appendCheckpoint conversationId owner expected additions =>
    obtain ⟨_, ran⟩ := ignore_ok.mp ran
    by_cases empty : additions = []
    · rw [Store.appendCheckpoint, if_pos empty] at ran
      obtain ⟨-, rfl⟩ := pure_ok.mp ran
      exact homed
    · rw [Store.appendCheckpoint, if_neg empty] at ran
      obtain ⟨_, -, committed⟩ := appendCheckpointTx_ok wellFormed ran
      exact homed.inside wrote
        (appendCheckpointTx_inside _ _ _ _ _ _ (homed.start (by rw [committed.owner]; rfl)) ran)
  | replaceCheckpoint =>
    obtain ⟨_, ran⟩ := ignore_ok.mp ran
    obtain ⟨_, -, committed⟩ := replaceCheckpoint_ok wellFormed ran
    exact homed.inside wrote (replaceCheckpoint_inside _ _ _ _ _ _ (homed.start (by rw [committed.owner]; rfl)) ran)
  | createToolRound => exact homed.create wellFormed ran
  | commitToolResult =>
    obtain ⟨_, ran⟩ := ignore_ok.mp ran
    exact homed.commit wellFormed ran
  | importCheckpoint =>
    obtain ⟨_, ran⟩ := ignore_ok.mp ran
    exact homed.inside wrote (imported_inside homed wellFormed ran)
  | finishRun =>
    obtain ⟨_, ran⟩ := ignore_ok.mp ran
    obtain ⟨row, -, -, rfl, -⟩ := finishRun_ok ran
    exact homed.kept wrote
      (fun row listed => isSome_update (homed.messages row listed) fun known => by rwa [Option.isSome_map]) rfl
  | reconcileInterruptedRuns processStartedAtMs =>
    obtain rfl := write_ok.mp ran
    exact homed.kept wrote (fun row listed => by
      rw [reconcile_conversations, Option.isSome_map]
      exact homed.messages row listed) rfl

end Homed

end Store

end Byok
