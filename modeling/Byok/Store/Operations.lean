/-
**The operations, and what each of them writes.**

For each operation of the store one specification: what was true when it succeeded and what it left
behind. From it, `Operation.writes`: whatever an operation does is a sequence of `Writes`. The
system of the store (`storeSystem`) is any number of parties calling operations in any order; every
operation is one serialised transaction, and one that fails is rolled back.
-/

import Byok.Library.System
import Byok.Store.NewMessages
import Byok.Store.Lineage

set_option linter.unusedSectionVars false

namespace Byok

open Library Transaction List

variable {D : Type} [DecidableEq D] [ChainHash D]

namespace Store

section Specs

variable {store after : Store D} {conversationId : ConversationId} {runId : RunId}

theorem ensureConversation_writes {current : CheckpointId}
    (ran : ensureConversation conversationId store = .ok (current, after)) :
    WritesMany store after := by
  rcases ensureConversation_ok ran with ⟨-, rfl⟩ | ⟨absent, -, unused, rfl⟩
  · exact .refl
  · exact .single (.createConversation conversationId absent unused)

theorem ensureConversation_current (wellFormed : store.WellFormed) {current : CheckpointId}
    (ran : ensureConversation conversationId store = .ok (current, after)) :
    after.Belongs current conversationId := by
  rcases ensureConversation_ok ran with ⟨found, rfl⟩ | ⟨-, rfl, -, rfl⟩
  · obtain ⟨row, foundRow, current⟩ := Option.bind_eq_some_iff.mp found
    obtain ⟨checkpointId, same, belongs⟩ := wellFormed.owned.current conversationId row foundRow
    rw [current] at same
    cases same
    exact belongs
  · exact ⟨_, mem_append_right _ (mem_singleton_self _), rfl, rfl⟩

theorem checkpointDigest_ok {checkpointId : CheckpointId} {digest : D}
    (ran : checkpointDigest checkpointId store = .ok (digest, after)) :
    (∃ row ∈ store.checkpoints, row.checkpointId = checkpointId ∧ row.stateDigest = digest) ∧
      store = after := by
  replace ran := read_bind_ok.mp ran
  obtain ⟨found, rfl⟩ := orFail_ok.mp ran
  obtain ⟨row, selected, rfl⟩ := Option.map_eq_some_iff.mp found
  obtain ⟨member, named⟩ := lookup_eq_some selected
  exact ⟨⟨row, member, named, rfl⟩, rfl⟩

theorem conversationRoot_ok {root : CheckpointId}
    (ran : conversationRoot conversationId store = .ok (root, after)) :
    (∃ row ∈ store.checkpoints, row.checkpointId = root ∧ row.conversationId = conversationId ∧
      row.parentCheckpointId = none) ∧ store = after := by
  replace ran := read_bind_ok.mp ran
  obtain ⟨found, rfl⟩ := orFail_ok.mp ran
  obtain ⟨row, selected, rfl⟩ := Option.map_eq_some_iff.mp found
  have top := find?_some selected
  simp only [Bool.and_eq_true, decide_eq_true_eq, Option.isNone_iff_eq_none] at top
  exact ⟨⟨row, mem_of_find?_eq_some selected, rfl, top.1, top.2⟩, rfl⟩

theorem putMessages_ok {additions : List CanonicalMessage} {done : Unit}
    (ran : putMessages conversationId additions store = .ok (done, after)) :
    WritesMany store after ∧ after = { store with messages := after.messages } ∧
      ∀ message ∈ additions, ⟨conversationId, message.payload⟩ ∈ after.messages := by
  induction additions generalizing store with
  | nil =>
    obtain ⟨-, rfl⟩ := pure_ok.mp ran
    exact ⟨.refl, rfl, by simp⟩
  | cons message rest ih =>
    obtain ⟨_, between, put, ran⟩ := bind_ok.mp ran
    obtain ⟨writes, frame, stored⟩ := ih ran
    have first : WritesMany store between ∧ between = { store with messages := between.messages } ∧
        ⟨conversationId, message.payload⟩ ∈ between.messages := by
      rcases putMessage_ok put with ⟨free, rfl⟩ | ⟨member, rfl⟩
      · exact ⟨.single (.insertMessage conversationId message free), rfl,
          mem_append_right _ (mem_singleton_self _)⟩
      · exact ⟨.refl, rfl, member⟩
    obtain ⟨writes', frame', member⟩ := first
    refine ⟨writes'.trans writes, ?_, ?_⟩
    · rw [frame, frame']
    · intro other listed
      rcases mem_cons.mp listed with rfl | later
      · exact (writesMany_extends writes).messages.subset member
      · exact stored other later

/-- The row of a checkpoint below another one. -/
def childRow (checkpointId : CheckpointId) (above : CheckpointRow D)
    (additions : List CanonicalMessage) : CheckpointRow D :=
  { checkpointId
    conversationId := above.conversationId
    parentCheckpointId := some above.checkpointId
    stateDigest := chainedDigest above.stateDigest additions
    messageIds := additions.map (·.messageId) }

/-- What `insert_checkpoint_tx` leaves: one more checkpoint, below `above`. -/
structure InsertedBelow (store after : Store D) (above : CheckpointRow D)
    (additions : List CanonicalMessage) (checkpointId : CheckpointId) : Prop where
  writes : WritesMany store after
  named : checkpointId = ⟨store.nextCheckpointId⟩
  checkpoints : after.checkpoints = store.checkpoints ++ [childRow checkpointId above additions]
  stored : ∀ message ∈ additions, ⟨above.conversationId, message.payload⟩ ∈ after.messages
  conversations : after.conversations = store.conversations
  runs : after.runs = store.runs
  toolRounds : after.toolRounds = store.toolRounds
  unused : store.checkpointByDigest above.conversationId
    (chainedDigest above.stateDigest additions) = none

theorem InsertedBelow.member {above : CheckpointRow D} {additions : List CanonicalMessage}
    {checkpointId : CheckpointId} (inserted : InsertedBelow store after above additions checkpointId) :
    childRow checkpointId above additions ∈ after.checkpoints := by
  rw [inserted.checkpoints]
  exact mem_append_right _ (mem_singleton_self _)

theorem insertCheckpoint_ok {above : CheckpointRow D} {additions : List CanonicalMessage}
    {checkpointId : CheckpointId} (member : above ∈ store.checkpoints)
    (ran : insertCheckpoint above.conversationId above.checkpointId additions
      (chainedDigest above.stateDigest additions) store = .ok (checkpointId, after)) :
    InsertedBelow store after above additions checkpointId := by
  obtain ⟨_, between, put, ran⟩ := bind_ok.mp ran
  obtain ⟨writes, frame, stored⟩ := putMessages_ok put
  obtain ⟨rfl, rfl, distinct, unused⟩ := insertCheckpointStatement_ok ran
  have here : above ∈ between.checkpoints := by
    rw [frame]
    exact member
  have next : between.nextCheckpointId = store.nextCheckpointId := by rw [frame]
  refine ⟨writes.tail (.insertCheckpoint above additions here stored distinct unused), ?_, ?_, stored,
    ?_, ?_, ?_, ?_⟩
  · rw [next]
  · rw [insertCheckpointRow_checkpoints, frame]
    rfl
  · show between.conversations = store.conversations
    rw [frame]
  · show between.runs = store.runs
    rw [frame]
  · show between.toolRounds = store.toolRounds
    rw [frame]
  · rw [frame] at unused
    exact unused

theorem updateHeads_ok {expected checkpointId : CheckpointId} {doing : String} {done : Unit}
    (ran : updateHeads conversationId runId expected checkpointId doing store = .ok (done, after)) :
    store.conversations conversationId = some ⟨some expected, some runId⟩ ∧
      after = advance conversationId runId checkpointId store := by
  replace ran := read_bind_ok.mp ran
  obtain ⟨owner, ran⟩ := require_bind_ok.mp ran
  exact ⟨owner, write_ok.mp ran⟩

/-- What an append or a replacement that adds one checkpoint leaves: the checkpoint below `above`,
and the conversation and the run moved on to it. -/
structure Committed (store after : Store D) (conversationId : ConversationId) (runId : RunId)
    (expected : CheckpointId) (above : CheckpointRow D) (additions : List CanonicalMessage)
    (checkpointId : CheckpointId) : Prop where
  owner : store.conversations conversationId = some ⟨some expected, some runId⟩
  member : above ∈ store.checkpoints
  home : above.conversationId = conversationId
  between : ∃ between, InsertedBelow store between above additions checkpointId ∧
    after = advance conversationId runId checkpointId between

theorem Committed.writes {expected checkpointId : CheckpointId} {above : CheckpointRow D}
    {additions : List CanonicalMessage}
    (committed : Committed store after conversationId runId expected above additions checkpointId) :
    WritesMany store after := by
  obtain ⟨between, inserted, rfl⟩ := committed.between
  obtain rfl := committed.home
  exact inserted.writes.tail (.advance (childRow checkpointId above additions) runId expected
    (by rw [inserted.conversations]; exact committed.owner) inserted.member)

theorem expected_home (wellFormed : store.WellFormed) {expected : CheckpointId}
    (owner : store.conversations conversationId = some ⟨some expected, some runId⟩)
    {above : CheckpointRow D} (member : above ∈ store.checkpoints)
    (named : above.checkpointId = expected) : above.conversationId = conversationId := by
  obtain ⟨checkpointId, current, row, rowMember, rowNamed, home⟩ :=
    wellFormed.owned.current conversationId _ owner
  cases current
  rw [wellFormed.chained.grown.key_injective member rowMember (named.trans rowNamed.symm)]
  exact home

theorem appendCheckpointTx_ok (wellFormed : store.WellFormed) {expected checkpointId : CheckpointId}
    {additions : List CanonicalMessage}
    (ran : appendCheckpointTx conversationId runId expected additions store =
      .ok (checkpointId, after)) :
    ∃ above, above.checkpointId = expected ∧
      Committed store after conversationId runId expected above additions checkpointId := by
  obtain ⟨digest, _, read, ran⟩ := bind_ok.mp ran
  obtain ⟨⟨above, member, named, rfl⟩, rfl⟩ := checkpointDigest_ok read
  obtain ⟨_, _, checked, ran⟩ := bind_ok.mp ran
  obtain ⟨owner, rfl⟩ := requireActiveHead_ok checked
  replace ran := read_bind_ok.mp ran
  obtain ⟨-, ran⟩ := require_bind_ok.mp ran
  obtain ⟨checkpoint, between, inserted, ran⟩ := bind_ok.mp ran
  have home := expected_home wellFormed owner member named
  rw [← home, ← named] at inserted
  obtain ⟨_, _, updated, ran⟩ := bind_ok.mp ran
  obtain ⟨-, rfl⟩ := updateHeads_ok updated
  obtain ⟨rfl, rfl⟩ := pure_ok.mp ran
  exact ⟨above, named, owner, member, home, between, insertCheckpoint_ok member inserted, rfl⟩

theorem replaceCheckpoint_ok (wellFormed : store.WellFormed) {expected checkpointId : CheckpointId}
    {messages : List CanonicalMessage}
    (ran : replaceCheckpoint conversationId runId expected messages store =
      .ok (checkpointId, after)) :
    ∃ root, root.parentCheckpointId = none ∧
      Committed store after conversationId runId expected root messages checkpointId := by
  obtain ⟨_, _, checked, ran⟩ := bind_ok.mp ran
  obtain ⟨owner, rfl⟩ := requireActiveHead_ok checked
  obtain ⟨root, _, found, ran⟩ := bind_ok.mp ran
  obtain ⟨⟨root, member, rfl, home, top⟩, rfl⟩ := conversationRoot_ok found
  obtain ⟨digest, _, read, ran⟩ := bind_ok.mp ran
  obtain ⟨⟨row, rowMember, named, rfl⟩, rfl⟩ := checkpointDigest_ok read
  obtain rfl := wellFormed.chained.grown.key_injective rowMember member named
  obtain ⟨checkpoint, between, inserted, ran⟩ := bind_ok.mp ran
  rw [← home] at inserted
  obtain ⟨_, _, updated, ran⟩ := bind_ok.mp ran
  obtain ⟨-, rfl⟩ := updateHeads_ok updated
  obtain ⟨rfl, rfl⟩ := pure_ok.mp ran
  exact ⟨row, top, owner, member, home, between, insertCheckpoint_ok member inserted, rfl⟩

theorem InsertedBelow.lineage (wellFormed : store.WellFormed) {above : CheckpointRow D}
    {additions : List CanonicalMessage} {checkpointId : CheckpointId}
    (member : above ∈ store.checkpoints)
    (inserted : InsertedBelow store after above additions checkpointId) :
    after.lineage checkpointId =
      store.lineage above.checkpointId ++ [childRow checkpointId above additions] := by
  have later := wellFormed_writesMany wellFormed inserted.writes
  have path : after.lineage checkpointId =
      after.lineage above.checkpointId ++ [childRow checkpointId above additions] :=
    lineage_eq later inserted.member
  rw [path, lineage_extends later (writesMany_extends inserted.writes) member]

theorem InsertedBelow.load (wellFormed : store.WellFormed) {above : CheckpointRow D}
    {additions : List CanonicalMessage} {checkpointId : CheckpointId}
    (member : above ∈ store.checkpoints)
    (inserted : InsertedBelow store after above additions checkpointId) :
    after.loadCheckpointMessages checkpointId =
      store.loadCheckpointMessages above.checkpointId ++ additions.map (·.payload) := by
  have later := wellFormed_writesMany wellFormed inserted.writes
  have child : after.loadCheckpointMessages checkpointId = _ :=
    load_child later inserted.member above.checkpointId rfl
  rw [child, load_extends wellFormed later (writesMany_extends inserted.writes) member]
  exact congrArg _ (later.chained.additions_stored inserted.stored)

theorem advance_load (checkpointId other : CheckpointId) :
    (advance conversationId runId checkpointId store).loadCheckpointMessages other =
      store.loadCheckpointMessages other := rfl

theorem Committed.load (wellFormed : store.WellFormed) {expected checkpointId : CheckpointId}
    {above : CheckpointRow D} {additions : List CanonicalMessage}
    (committed : Committed store after conversationId runId expected above additions checkpointId) :
    after.loadCheckpointMessages checkpointId =
      store.loadCheckpointMessages above.checkpointId ++ additions.map (·.payload) := by
  obtain ⟨between, inserted, rfl⟩ := committed.between
  rw [advance_load]
  exact inserted.load wellFormed committed.member

/-! ### A batch of messages -/

/-- The messages of a batch that were inserted, by the flags that come back. -/
def insertedOf (messages : List CanonicalMessage) (appended : List (CheckpointId × Bool)) :
    List CanonicalMessage :=
  (messages.zip appended).filterMap fun (message, _, inserted) =>
    if inserted then some message else none

theorem insertedOf_concat {messages : List CanonicalMessage} {appended : List (CheckpointId × Bool)}
    (count : appended.length = messages.length) (message : CanonicalMessage) (head : CheckpointId)
    (inserted : Bool) :
    insertedOf (messages ++ [message]) (appended ++ [(head, inserted)]) =
      insertedOf messages appended ++ if inserted then [message] else [] := by
  rw [insertedOf, zip_append count.symm, filterMap_append]
  cases inserted <;> rfl

/-- What holds between two messages of a batch: the inserted ones lie on one path below `expected`. -/
structure AppendPath (store between : Store D) (conversationId : ConversationId)
    (expected : CheckpointId) (known : List ChainIdentity) (done : List CanonicalMessage)
    (state : AppendState D) : Prop where
  writes : WritesMany store between
  conversations : between.conversations = store.conversations
  runs : between.runs = store.runs
  toolRounds : between.toolRounds = store.toolRounds
  top : ∃ row ∈ between.checkpoints, row.checkpointId = state.head ∧
    row.conversationId = conversationId ∧ row.stateDigest = state.parentDigest
  count : state.appended.length = done.length
  last : (state.appended.getLast?.map (·.1)).getD expected = state.head
  chain : between.loadCheckpointMessages state.head =
    store.loadCheckpointMessages expected ++ (insertedOf done state.appended).map (·.payload)
  identities : state.known = known ++ (insertedOf done state.appended).map fun message =>
    ⟨message.messageId, message.runtimeEventId, some message⟩
  unmoved : insertedOf done state.appended = [] → between = store ∧ state.head = expected
  moved : insertedOf done state.appended ≠ [] → store.nextCheckpointId ≤ state.head.value
  fresh : ∀ history : List CanonicalMessage, known = history.map chainIdentity →
    insertedOf done state.appended = newMessages history done
  path : ∀ row ∈ between.lineage state.head, row ∈ store.lineage expected ∨
    ∃ part, part <+: insertedOf done state.appended ∧
      between.loadCheckpointMessages row.checkpointId =
        store.loadCheckpointMessages expected ++ part.map (·.payload)

/-- What holds besides: every message that is not inserted collided with an identity under which the same message is
stored. -/
structure AppendLoop (store between : Store D) (conversationId : ConversationId)
    (expected : CheckpointId) (known : List ChainIdentity) (done : List CanonicalMessage)
    (state : AppendState D) : Prop extends
    AppendPath store between conversationId expected known done state where
  delivered : ∀ message ∈ done, message ∈ insertedOf done state.appended ∨
    ∃ identity ∈ known, identity.matches message = true ∧
      storedUnder conversationId message identity between = true

theorem AppendPath.any_matches {between : Store D} {expected : CheckpointId}
    {known : List ChainIdentity} {done : List CanonicalMessage} {state : AppendState D}
    (loop : AppendPath store between conversationId expected known done state)
    {history : List CanonicalMessage} (same : known = history.map chainIdentity)
    (message : CanonicalMessage) :
    state.known.any (·.matches message) =
      (history ++ newMessages history done).any fun known =>
        (chainIdentity known).matches message := by
  rw [loop.identities, loop.fresh history same, same, any_append, any_append,
    any_map, any_map]
  rfl

theorem appendMessageWith_path {holds : CanonicalMessage → ChainIdentity → Store D → Bool}
    (wellFormed : store.WellFormed) {between later : Store D}
    {expected : CheckpointId} {known : List ChainIdentity} {done : List CanonicalMessage}
    {message : CanonicalMessage} {state next : AppendState D}
    (loop : AppendPath store between conversationId expected known done state)
    (ran : appendMessageWith holds conversationId state message between = .ok (next, later)) :
    AppendPath store later conversationId expected known (done ++ [message]) next := by
  unfold appendMessageWith at ran
  cases found : state.known.find? (·.matches message) with
  | some identity =>
    rw [found] at ran
    replace ran := read_bind_ok.mp ran
    obtain ⟨-, ran⟩ := require_bind_ok.mp ran
    obtain ⟨rfl, rfl⟩ := pure_ok.mp ran
    have same : insertedOf (done ++ [message]) (state.appended ++ [(state.head, false)]) =
        insertedOf done state.appended := by
      rw [insertedOf_concat loop.count]
      simp
    refine ⟨loop.writes, loop.conversations, loop.runs, loop.toolRounds, loop.top,
      by simp [loop.count], by simp, ?_, ?_, ?_, ?_, ?_, ?_⟩ <;> simp only [same]
    · exact loop.chain
    · exact loop.identities
    · exact loop.unmoved
    · exact loop.moved
    · intro history origin
      rw [newMessages_concat, ← loop.any_matches origin, if_pos, loop.fresh history origin]
      have matched := find?_some found
      exact any_eq_true.mpr ⟨identity, mem_of_find?_eq_some found, matched⟩
    · exact loop.path
  | none =>
    rw [found] at ran
    replace ran := read_bind_ok.mp ran
    obtain ⟨-, ran⟩ := require_bind_ok.mp ran
    obtain ⟨head, last, inserting, ran⟩ := bind_ok.mp ran
    obtain ⟨rfl, rfl⟩ := pure_ok.mp ran
    obtain ⟨above, member, named, home, digest⟩ := loop.top
    rw [← home, ← named, ← digest] at inserting
    have inserted := insertCheckpoint_ok member inserting
    have wellFormed' := wellFormed_writesMany wellFormed loop.writes
    have grown : insertedOf (done ++ [message]) (state.appended ++ [(head, true)]) =
        insertedOf done state.appended ++ [message] := by
      rw [insertedOf_concat loop.count]
      simp
    refine ⟨loop.writes.trans inserted.writes, inserted.conversations.trans loop.conversations,
      inserted.runs.trans loop.runs, inserted.toolRounds.trans loop.toolRounds,
      ⟨_, inserted.member, rfl, home, ?_⟩, by simp [loop.count], by simp, ?_, ?_, ?_, ?_, ?_,
      ?_⟩ <;>
      simp only [grown]
    · rw [← digest]
      rfl
    · rw [inserted.load wellFormed' member, named, loop.chain]
      simp
    · simp [loop.identities]
    · simp
    · intro _
      rw [inserted.named]
      exact (writesMany_extends loop.writes).nextCheckpointId
    · intro history origin
      rw [newMessages_concat, ← loop.any_matches origin, if_neg, loop.fresh history origin]
      simpa [any_eq_true] using find?_eq_none.mp found
    · intro row listed
      rw [inserted.lineage wellFormed' member, named] at listed
      rcases mem_append.mp listed with early | late
      · rcases loop.path row early with old | ⟨part, prefixed, load⟩
        · exact .inl old
        · refine .inr ⟨part, prefixed.trans (prefix_append _ _), ?_⟩
          rw [← load]
          exact load_extends wellFormed' (wellFormed_writesMany wellFormed' inserted.writes)
            (writesMany_extends inserted.writes) (ancestry_subset early)
      · obtain rfl := mem_singleton.mp late
        refine .inr ⟨_, prefix_rfl, ?_⟩
        have load := inserted.load wellFormed' member
        rw [named, loop.chain, append_assoc, ← map_append] at load
        exact load

theorem appendMessageOnce_loop (wellFormed : store.WellFormed) {between later : Store D}
    {expected : CheckpointId} {known : List ChainIdentity} {done : List CanonicalMessage}
    {message : CanonicalMessage} {state next : AppendState D}
    (loop : AppendLoop store between conversationId expected known done state)
    (ran : appendMessageOnce conversationId state message between = .ok (next, later)) :
    AppendLoop store later conversationId expected known (done ++ [message]) next := by
  refine ⟨appendMessageWith_path wellFormed loop.toAppendPath ran, fun other listed => ?_⟩
  unfold appendMessageOnce appendMessageWith at ran
  cases found : state.known.find? (·.matches message) with
  | some identity =>
    rw [found] at ran
    replace ran := read_bind_ok.mp ran
    obtain ⟨stored, ran⟩ := require_bind_ok.mp ran
    obtain ⟨rfl, rfl⟩ := pure_ok.mp ran
    have matched := find?_some found
    have member := mem_of_find?_eq_some found
    dsimp only
    rw [insertedOf_concat loop.count, if_neg Bool.false_ne_true, append_nil]
    rcases mem_append.mp listed with early | late
    · exact loop.delivered other early
    · obtain rfl := mem_singleton.mp late
      rw [loop.identities] at member
      rcases mem_append.mp member with old | new
      · exact .inr ⟨identity, old, matched, stored⟩
      · obtain ⟨body, bodyMember, rfl⟩ := mem_map.mp new
        simp only [storedUnder, decide_eq_true_eq] at stored
        exact .inl (stored ▸ bodyMember)
  | none =>
    rw [found] at ran
    replace ran := read_bind_ok.mp ran
    obtain ⟨-, ran⟩ := require_bind_ok.mp ran
    obtain ⟨head, last, inserting, ran⟩ := bind_ok.mp ran
    obtain ⟨rfl, rfl⟩ := pure_ok.mp ran
    obtain ⟨above, member, named, home, digest⟩ := loop.top
    rw [← home, ← named, ← digest] at inserting
    have inserted := insertCheckpoint_ok member inserting
    dsimp only
    rw [insertedOf_concat loop.count, if_pos rfl]
    rcases mem_append.mp listed with early | late
    · rcases loop.delivered other early with old | ⟨identity, known, matched, stored⟩
      · exact .inl (mem_append_left _ old)
      · refine .inr ⟨identity, known, matched, ?_⟩
        unfold storedUnder at stored ⊢
        cases body : identity.body with
        | some _ => simpa [body] using stored
        | none =>
          simp only [body, decide_eq_true_eq] at stored ⊢
          exact message?_extends (writesMany_extends inserted.writes).messages stored
    · rw [mem_singleton.mp late]
      exact .inl (mem_append_right _ (mem_singleton_self _))

theorem AppendPath.start (wellFormed : store.WellFormed) {expected : CheckpointId} (known : List ChainIdentity)
    (owner : store.conversations conversationId = some ⟨some expected, some runId⟩) {above : CheckpointRow D}
    (member : above ∈ store.checkpoints) (named : above.checkpointId = expected) :
    AppendPath store store conversationId expected known [] ⟨known, above.stateDigest, expected, []⟩ := by
  refine ⟨.refl, rfl, rfl, rfl, ⟨above, member, named, ?_, rfl⟩, rfl, rfl, ?_, ?_, ?_, ?_, ?_,
    fun row listed => .inl listed⟩
  · exact expected_home wellFormed owner member named
  all_goals simp [insertedOf, newMessages]

theorem AppendLoop.start (wellFormed : store.WellFormed) {expected : CheckpointId} (known : List ChainIdentity)
    (owner : store.conversations conversationId = some ⟨some expected, some runId⟩) {above : CheckpointRow D}
    (member : above ∈ store.checkpoints) (named : above.checkpointId = expected) :
    AppendLoop store store conversationId expected known [] ⟨known, above.stateDigest, expected, []⟩ :=
  ⟨.start wellFormed known owner member named, fun _ listed => absurd listed not_mem_nil⟩

/-- What `append_messages_once` leaves: the conversation and the run moved on to the last inserted
message, when there is one. -/
structure Appended (store after : Store D) (conversationId : ConversationId) (runId : RunId)
    (expected : CheckpointId) (known : List ChainIdentity) (messages : List CanonicalMessage)
    (appended : List (CheckpointId × Bool)) : Prop where
  owner : store.conversations conversationId = some ⟨some expected, some runId⟩
  between : ∃ between state, state.appended = appended ∧
    AppendLoop store between conversationId expected known messages state ∧
    after = if state.head = expected then between
      else advance conversationId runId state.head between

theorem appendMessagesOnce_ok (wellFormed : store.WellFormed) {expected : CheckpointId}
    {known : List ChainIdentity} {messages : List CanonicalMessage}
    {appended : List (CheckpointId × Bool)} (some : messages ≠ [])
    (ran : appendMessagesOnce conversationId runId expected known messages store =
      .ok (appended, after)) :
    Appended store after conversationId runId expected known messages appended := by
  rw [appendMessagesOnce, appendMessagesWith, if_neg some] at ran
  obtain ⟨_, _, checked, ran⟩ := bind_ok.mp ran
  obtain ⟨owner, rfl⟩ := requireActiveHead_ok checked
  obtain ⟨digest, _, read, ran⟩ := bind_ok.mp ran
  obtain ⟨⟨above, member, named, rfl⟩, rfl⟩ := checkpointDigest_ok read
  obtain ⟨state, between, looped, ran⟩ := bind_ok.mp ran
  have start := AppendLoop.start wellFormed known owner member named
  have loop : AppendLoop store between conversationId expected known messages state :=
    foldlM_relates (motive := fun done state between =>
      AppendLoop store between conversationId expected known done state) looped start
      fun done item acc between next later _ loop ran => appendMessageOnce_loop wellFormed loop ran
  refine ⟨owner, between, state, ?_, loop, ?_⟩
  · split at ran
    · exact (pure_ok.mp ran).1.symm
    · obtain ⟨_, _, -, ran⟩ := bind_ok.mp ran
      exact (pure_ok.mp ran).1.symm
  · split at ran
    · rename_i unmoved
      rw [if_pos unmoved]
      exact (pure_ok.mp ran).2.symm
    · rename_i moved
      rw [if_neg moved]
      obtain ⟨_, _, updated, ran⟩ := bind_ok.mp ran
      obtain ⟨-, rfl⟩ := updateHeads_ok updated
      exact (pure_ok.mp ran).2.symm

theorem Appended.writes {expected : CheckpointId}
    {known : List ChainIdentity} {messages : List CanonicalMessage}
    {appended : List (CheckpointId × Bool)}
    (done : Appended store after conversationId runId expected known messages appended) :
    WritesMany store after := by
  obtain ⟨between, state, -, loop, rfl⟩ := done.between
  split
  · exact loop.writes
  · obtain ⟨row, member, named, home, -⟩ := loop.top
    rw [← home, ← named]
    refine loop.writes.tail (.advance row runId expected ?_ member)
    rw [loop.conversations, home]
    exact done.owner

/-! ### The other operations -/

theorem importParent_ok {current parent : CheckpointId}
    {messages additions : List CanonicalMessage} (belongs : store.Belongs current conversationId)
    (ran : importParent conversationId current messages store = .ok ((parent, additions), after)) :
    store = after ∧ ∃ above ∈ store.checkpoints, above.checkpointId = parent ∧
      above.conversationId = conversationId ∧
      ((extendsPrefix (store.loadCheckpointMessages current) messages = true ∧ parent = current ∧
          additions = messages.drop (store.loadCheckpointMessages current).length) ∨
        (extendsPrefix (store.loadCheckpointMessages current) messages = false ∧
          above.parentCheckpointId = none ∧ additions = messages)) := by
  replace ran := read_bind_ok.mp ran
  split at ran
  · rename_i extends'
    obtain ⟨equal, rfl⟩ := pure_ok.mp ran
    cases equal
    obtain ⟨above, member, named, home⟩ := belongs
    exact ⟨rfl, above, member, named, home, .inl ⟨extends', rfl, rfl⟩⟩
  · rename_i differs
    obtain ⟨root, _, found, ran⟩ := bind_ok.mp ran
    obtain ⟨⟨above, member, named, home, top⟩, rfl⟩ := conversationRoot_ok found
    obtain ⟨equal, rfl⟩ := pure_ok.mp ran
    cases equal
    exact ⟨rfl, above, member, named, home, .inr ⟨by simpa using differs, top, rfl⟩⟩

/-- What `import_checkpoint` does once the conversation is there. -/
structure Imported (store after : Store D) (conversationId : ConversationId) (current : CheckpointId)
    (messages : List CanonicalMessage) (checkpointId : CheckpointId) (above : CheckpointRow D)
    (additions : List CanonicalMessage) : Prop where
  member : above ∈ store.checkpoints
  home : above.conversationId = conversationId
  placed : (extendsPrefix (store.loadCheckpointMessages current) messages = true ∧
      above.checkpointId = current ∧
      additions = messages.drop (store.loadCheckpointMessages current).length) ∨
    (extendsPrefix (store.loadCheckpointMessages current) messages = false ∧
      above.parentCheckpointId = none ∧ additions = messages)
  outcome : (additions = [] ∧ above.checkpointId = current ∧ checkpointId = current ∧
      after = store) ∨
    (¬ (additions = [] ∧ above.checkpointId = current) ∧
      store.checkpointByDigest conversationId (chainedDigest above.stateDigest additions) =
        some checkpointId ∧ after = store) ∨
    (¬ (additions = [] ∧ above.checkpointId = current) ∧
      InsertedBelow store after above additions checkpointId)

theorem importCheckpoint_ok (wellFormed : store.WellFormed) {messages : List CanonicalMessage}
    {checkpointId : CheckpointId}
    (ran : importCheckpoint conversationId messages store = .ok (checkpointId, after)) :
    ∃ current between above additions,
      ensureConversation conversationId store = .ok (current, between) ∧
      Imported between after conversationId current messages checkpointId above additions := by
  obtain ⟨current, between, ensured, ran⟩ := bind_ok.mp ran
  obtain ⟨⟨parent, additions⟩, _, placed, ran⟩ := bind_ok.mp ran
  have wellFormed' := wellFormed_writesMany wellFormed (ensureConversation_writes ensured)
  obtain ⟨rfl, above, member, rfl, home, placed⟩ :=
    importParent_ok (ensureConversation_current wellFormed ensured) placed
  refine ⟨current, between, above, additions, ensured, member, home, placed, ?_⟩
  split at ran
  · rename_i nothing
    obtain ⟨rfl, rfl⟩ := pure_ok.mp ran
    exact .inl ⟨nothing.1, nothing.2, rfl, rfl⟩
  · rename_i something
    obtain ⟨digest, _, read, ran⟩ := bind_ok.mp ran
    obtain ⟨⟨row, rowMember, named, rfl⟩, rfl⟩ := checkpointDigest_ok read
    obtain rfl := wellFormed'.chained.grown.key_injective rowMember member named
    obtain ⟨existing, _, look, ran⟩ := bind_ok.mp ran
    obtain ⟨found, rfl⟩ := read_ok.mp look
    cases existing with
    | some existing =>
      obtain ⟨rfl, rfl⟩ := pure_ok.mp ran
      exact .inr (.inl ⟨something, found.symm, rfl⟩)
    | none =>
      rw [← home] at ran
      exact .inr (.inr ⟨something, insertCheckpoint_ok member ran⟩)

theorem importCheckpoint_writes (wellFormed : store.WellFormed) {messages : List CanonicalMessage}
    {checkpointId : CheckpointId}
    (ran : importCheckpoint conversationId messages store = .ok (checkpointId, after)) :
    WritesMany store after := by
  obtain ⟨current, between, above, additions, ensured, imported⟩ :=
    importCheckpoint_ok wellFormed ran
  refine (ensureConversation_writes ensured).trans ?_
  rcases imported.outcome with ⟨-, -, -, rfl⟩ | ⟨-, -, rfl⟩ | ⟨-, inserted⟩
  · exact .refl
  · exact .refl
  · exact inserted.writes

theorem claimRun_ok {prepared : PreparedRun} {nowMs : Int} {claimed : ClaimedRun}
    (ran : claimRun prepared nowMs store = .ok (claimed, after)) :
    ∃ current between, ensureConversation prepared.conversationId store = .ok (current, between) ∧
      (∃ base ∈ between.checkpoints, base.checkpointId = prepared.baseCheckpointId ∧
        base.conversationId = prepared.conversationId) ∧
      between.runs prepared.runId = none ∧ after = claim prepared nowMs between ∧
      claimed = ⟨prepared.runId, prepared.conversationId, prepared.baseCheckpointId,
        between.replacedBy prepared⟩ := by
  obtain ⟨current, between, ensured, ran⟩ := bind_ok.mp ran
  replace ran := read_bind_ok.mp ran
  obtain ⟨belongs, ran⟩ := require_bind_ok.mp ran
  replace ran := read_bind_ok.mp ran
  replace ran := read_bind_ok.mp ran
  obtain ⟨fresh, ran⟩ := require_bind_ok.mp ran
  replace ran := write_bind_ok.mp ran
  obtain ⟨rfl, rfl⟩ := pure_ok.mp ran
  obtain ⟨base, found, home⟩ := Option.map_eq_some_iff.mp belongs
  obtain ⟨member, named⟩ := lookup_eq_some found
  exact ⟨current, between, ensured, ⟨base, member, named, home⟩, fresh, rfl, rfl⟩

theorem claimRun_writes {prepared : PreparedRun} {nowMs : Int} {claimed : ClaimedRun}
    (ran : claimRun prepared nowMs store = .ok (claimed, after)) : WritesMany store after := by
  obtain ⟨current, between, ensured, ⟨base, member, named, home⟩, fresh, rfl, -⟩ := claimRun_ok ran
  exact (ensureConversation_writes ensured).tail (.claim prepared nowMs base member named home fresh)

theorem finishRun_ok {status : RunStatus} {failure : Option (String × String)} {released : Bool}
    (ran : finishRun runId status failure store = .ok (released, after)) :
    ∃ row, store.runs runId = some row ∧ (row.status = .running → status ≠ .running) ∧
      after = release row.conversationId runId (updateRun runId (·.finish status failure) store) ∧
      released = decide ((store.conversations row.conversationId).bind (·.activeRunId) =
        some runId) := by
  replace ran := read_bind_ok.mp ran
  obtain ⟨row, found, ran⟩ := orFail_bind_ok.mp ran
  replace ran := write_bind_ok.mp ran
  obtain ⟨terminal, ran⟩ := require_bind_ok.mp ran
  replace ran := read_bind_ok.mp ran
  replace ran := write_bind_ok.mp ran
  obtain ⟨rfl, rfl⟩ := pure_ok.mp ran
  refine ⟨row, found, fun running => ?_, rfl, rfl⟩
  simpa [running] using terminal

theorem finishRun_writes {status : RunStatus} {failure : Option (String × String)} {released : Bool}
    (ran : finishRun runId status failure store = .ok (released, after)) :
    WritesMany store after := by
  obtain ⟨row, found, terminal, rfl, -⟩ := finishRun_ok ran
  exact .single (.finish runId row status failure found terminal)

theorem createToolRound_ok {roundId : ToolRoundId} {baseCheckpointId : CheckpointId}
    {assistant : ToolRoundAssistant} {calls : List ToolCall} {createdAtMs : Option Nat} {nowMs : Int}
    {done : Unit}
    (ran : createToolRound roundId runId baseCheckpointId assistant calls createdAtMs nowMs store =
      .ok (done, after)) :
    calls ≠ [] ∧ store.ownsHead runId baseCheckpointId = true ∧ store.toolRounds roundId = none ∧
      (calls.map (·.index)).Nodup ∧ (calls.map (·.callId)).Nodup ∧
      after = insertToolRound roundId
        { runId, baseCheckpointId, assistant, status := .pending, version := 0
          nextCompletionSeq := 0, createdAtMs := (createdAtMs.map Int.ofNat).getD nowMs
          calls := calls.map (·.row) } store := by
  obtain ⟨some, ran⟩ := require_bind_ok.mp ran
  replace ran := read_bind_ok.mp ran
  obtain ⟨owner, ran⟩ := require_bind_ok.mp ran
  obtain ⟨-, ran⟩ := require_bind_ok.mp ran
  replace ran := read_bind_ok.mp ran
  obtain ⟨_, _, checked, ran⟩ := bind_ok.mp ran
  obtain ⟨⟨fresh, indexes, callIds⟩, rfl⟩ := require_ok.mp checked
  exact ⟨some, owner, fresh, indexes, callIds, write_ok.mp ran⟩

/-- What `commit_tool_result` found and what it leaves: one checkpoint with the part and the result
of the call, and the rows of the round completed. -/
structure ResultCommitted (store after : Store D) (conversationId : ConversationId) (runId : RunId)
    (roundId : ToolRoundId) (result : ToolResult) (round : ToolRoundRow) (call : ToolRoundCallRow)
    (expected : CheckpointId) (commit : ToolCommit) : Prop where
  stored : store.toolRounds roundId = some round
  owner : round.runId = runId
  unsettled : round.status = .pending
  found : round.call? result.callId = some call
  pending : call.status = .pending
  head : ∃ run, store.runs runId = some run ∧ run.headCheckpointId = expected
  between : ∃ above between, above.checkpointId = expected ∧
    Committed store between conversationId runId expected above
      [assistantPart roundId round.assistant round.nextCompletionSeq call,
        resultMessage roundId call result] commit.checkpointId ∧
    after = updateToolRound roundId (·.complete result commit.checkpointId) between
  returned : commit.toolRoundVersion = round.version + 1 ∧
    commit.completionSeq = round.nextCompletionSeq ∧
    commit.settled = decide ((round.complete result commit.checkpointId).status = .settled)

theorem commitToolResult_ok (wellFormed : store.WellFormed) {roundId : ToolRoundId}
    {result : ToolResult} {commit : ToolCommit}
    (ran : commitToolResult conversationId runId roundId result store = .ok (commit, after)) :
    ∃ round call expected, ResultCommitted store after conversationId runId roundId result round call
      expected commit := by
  replace ran := read_bind_ok.mp ran
  obtain ⟨round, selected, ran⟩ := orFail_bind_ok.mp ran
  obtain ⟨found, owned⟩ := Option.filter_eq_some_iff.mp selected
  obtain ⟨status, ran⟩ := require_bind_ok.mp ran
  obtain ⟨call, foundCall, ran⟩ := orFail_bind_ok.mp ran
  obtain ⟨pending, ran⟩ := require_bind_ok.mp ran
  replace ran := read_bind_ok.mp ran
  obtain ⟨run, foundRun, ran⟩ := orFail_bind_ok.mp ran
  obtain ⟨checkpoint, between, appended, ran⟩ := bind_ok.mp ran
  obtain ⟨above, named, committed⟩ := appendCheckpointTx_ok wellFormed appended
  replace ran := write_bind_ok.mp ran
  obtain ⟨rfl, rfl⟩ := pure_ok.mp ran
  exact ⟨round, call, run.headCheckpointId, found, by simpa using owned, status, foundCall, pending,
    ⟨run, foundRun, rfl⟩, ⟨above, between, named, committed, rfl⟩, rfl, rfl, rfl⟩

theorem ResultCommitted.writes {roundId : ToolRoundId} {result : ToolResult} {round : ToolRoundRow}
    {call : ToolRoundCallRow} {expected : CheckpointId} {commit : ToolCommit}
    (committed : ResultCommitted store after conversationId runId roundId result round call expected
      commit) : WritesMany store after := by
  obtain ⟨above, between, -, done, rfl⟩ := committed.between
  exact done.writes.tail (.toolRounds _)

end Specs

/-! ### The system of the store -/

end Store

open Store

/-- A call of an operation of the store. -/
inductive Operation where
  | ensureConversation (conversationId : ConversationId)
  | claimRun (prepared : PreparedRun) (nowMs : Int)
  | appendMessagesOnce (conversationId : ConversationId) (runId : RunId) (expected : CheckpointId)
      (known : List ChainIdentity) (messages : List CanonicalMessage)
  | appendCheckpoint (conversationId : ConversationId) (runId : RunId) (expected : CheckpointId)
      (additions : List CanonicalMessage)
  | replaceCheckpoint (conversationId : ConversationId) (runId : RunId) (expected : CheckpointId)
      (messages : List CanonicalMessage)
  | createToolRound (roundId : ToolRoundId) (runId : RunId) (baseCheckpointId : CheckpointId)
      (assistant : ToolRoundAssistant) (calls : List ToolCall) (createdAtMs : Option Nat)
      (nowMs : Int)
  | commitToolResult (conversationId : ConversationId) (runId : RunId) (roundId : ToolRoundId)
      (result : ToolResult)
  | importCheckpoint (conversationId : ConversationId) (messages : List CanonicalMessage)
  | finishRun (runId : RunId) (status : RunStatus) (failure : Option (String × String))
  | reconcileInterruptedRuns (processStartedAtMs : Int)
deriving DecidableEq

namespace Operation

/-- The transaction of an operation, without its result. -/
def transaction : Operation → StoreTransaction D Unit
  | ensureConversation conversationId => (Store.ensureConversation conversationId).ignore
  | claimRun prepared nowMs => (Store.claimRun prepared nowMs).ignore
  | appendMessagesOnce conversationId runId expected known messages =>
      (Store.appendMessagesOnce conversationId runId expected known messages).ignore
  | appendCheckpoint conversationId runId expected additions =>
      (Store.appendCheckpoint conversationId runId expected additions).ignore
  | replaceCheckpoint conversationId runId expected messages =>
      (Store.replaceCheckpoint conversationId runId expected messages).ignore
  | createToolRound roundId runId baseCheckpointId assistant calls createdAtMs nowMs =>
      Store.createToolRound roundId runId baseCheckpointId assistant calls createdAtMs nowMs
  | commitToolResult conversationId runId roundId result =>
      (Store.commitToolResult conversationId runId roundId result).ignore
  | importCheckpoint conversationId messages =>
      (Store.importCheckpoint conversationId messages).ignore
  | finishRun runId status failure => (Store.finishRun runId status failure).ignore
  | reconcileInterruptedRuns processStartedAtMs =>
      Store.reconcileInterruptedRuns processStartedAtMs

/-- The store after an operation. -/
def apply (operation : Operation) (store : Store D) : Store D :=
  (operation.transaction.execute store).2

/-- The operation succeeds. -/
def Succeeds (operation : Operation) (store : Store D) : Prop :=
  (operation.transaction.execute store).1 = .ok ()

/-- **What an operation does is a sequence of writes.** -/
theorem writes {store after : Store D} (wellFormed : store.WellFormed) {operation : Operation}
    {done : Unit} (ran : operation.transaction store = .ok (done, after)) :
    WritesMany store after := by
  cases operation with
  | ensureConversation conversationId =>
    obtain ⟨_, ran⟩ := ignore_ok.mp ran
    exact ensureConversation_writes ran
  | claimRun prepared nowMs =>
    obtain ⟨_, ran⟩ := ignore_ok.mp ran
    exact claimRun_writes ran
  | appendMessagesOnce conversationId runId expected known messages =>
    obtain ⟨_, ran⟩ := ignore_ok.mp ran
    by_cases empty : messages = []
    · rw [Store.appendMessagesOnce, Store.appendMessagesWith, if_pos empty] at ran
      obtain ⟨-, rfl⟩ := pure_ok.mp ran
      exact .refl
    · exact (appendMessagesOnce_ok wellFormed empty ran).writes
  | appendCheckpoint conversationId runId expected additions =>
    obtain ⟨_, ran⟩ := ignore_ok.mp ran
    by_cases empty : additions = []
    · rw [Store.appendCheckpoint, if_pos empty] at ran
      obtain ⟨-, rfl⟩ := pure_ok.mp ran
      exact .refl
    · rw [Store.appendCheckpoint, if_neg empty] at ran
      obtain ⟨_, -, committed⟩ := appendCheckpointTx_ok wellFormed ran
      exact committed.writes
  | replaceCheckpoint conversationId runId expected messages =>
    obtain ⟨_, ran⟩ := ignore_ok.mp ran
    obtain ⟨_, -, committed⟩ := replaceCheckpoint_ok wellFormed ran
    exact committed.writes
  | createToolRound roundId runId baseCheckpointId assistant calls createdAtMs nowMs =>
    obtain ⟨-, -, -, -, -, rfl⟩ := createToolRound_ok ran
    exact .single (.toolRounds _)
  | commitToolResult conversationId runId roundId result =>
    obtain ⟨_, ran⟩ := ignore_ok.mp ran
    obtain ⟨_, _, _, committed⟩ := commitToolResult_ok wellFormed ran
    exact committed.writes
  | importCheckpoint conversationId messages =>
    obtain ⟨_, ran⟩ := ignore_ok.mp ran
    exact importCheckpoint_writes wellFormed ran
  | finishRun runId status failure =>
    obtain ⟨_, ran⟩ := ignore_ok.mp ran
    exact finishRun_writes ran
  | reconcileInterruptedRuns processStartedAtMs =>
    obtain rfl := write_ok.mp ran
    exact .single (.reconcile processStartedAtMs)

theorem apply_writes {store : Store D} (wellFormed : store.WellFormed) (operation : Operation) :
    WritesMany store (operation.apply store) := by
  rw [apply]
  rcases ran : operation.transaction store with error | ⟨done, after⟩
  · rw [execute_error ran]
  · rw [execute_ok ran]
    exact writes wellFormed ran

end Operation

/-- The store and all who use it: operations one after the other. -/
def storeSystem (D : Type) [DecidableEq D] [ChainHash D] : System (Store D) Operation where
  initial store := store = Store.empty
  step store operation after := after = operation.apply store

theorem wellFormed_step {store after : Store D} {operation : Operation}
    (wellFormed : store.WellFormed) (step : (storeSystem D).step store operation after) :
    after.WellFormed := by
  obtain rfl := step
  exact wellFormed_writesMany wellFormed (operation.apply_writes wellFormed)

/-- **Every reachable store is well formed.** -/
theorem wellFormed_of_reachable {store : Store D} (reachable : (storeSystem D).Reachable store) :
    store.WellFormed :=
  System.reachable_invariant (fun _ start => start ▸ wellFormed_empty)
    (fun _ _ _ holds step => wellFormed_step holds step) reachable

theorem run_writes {store after : Store D} {operations : List Operation}
    (wellFormed : store.WellFormed) (run : (storeSystem D).Run store operations after) :
    after.WellFormed ∧ WritesMany store after := by
  refine System.run_relates WellFormed (fun _ => .refl)
    (fun _ _ _ one two => one.trans two) (fun state operation next holds step => ?_) wellFormed run
  obtain rfl := step
  have wrote := operation.apply_writes holds
  exact ⟨wellFormed_writesMany holds wrote, wrote⟩

/-- A run of the conversation, prepared at its root. -/
def samplePrepared (runId : String) : PreparedRun :=
  { runId := ⟨runId⟩
    conversationId := ⟨"conversation"⟩
    initialMessages := []
    action := .start
    baseCheckpointId := ⟨1⟩ }

/-- What a user asks. -/
def sampleAsked (messageId text : String) : CanonicalMessage :=
  { messageId
    role := .user
    origin := .user
    content := .parts [.text text]
    runtimeEventId := none }

end Byok
