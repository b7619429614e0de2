/-
**Every write keeps the store well formed.**

`wellFormed_writes` and `writes_extends`, one case for each write, and with them the rules that the
results about operations use: a well-formed store stays so over any number of writes, and only grows.
-/

import Byok.Store.Writes

set_option linter.unusedSectionVars false

namespace Byok

open Library Transaction List

variable {D : Type} [DecidableEq D] [ChainHash D]

namespace Store

/-! ### Reading a store that has grown -/

section Reading

variable {store after : Store D}

theorem message?_extends (grown : store.messages <+: after.messages) {conversationId : ConversationId}
    {messageId : String} {message : CanonicalMessage}
    (found : store.message? conversationId messageId = some message) :
    after.message? conversationId messageId = some message := by
  obtain ⟨more, grown⟩ := grown
  obtain ⟨row, selected, rfl⟩ := Option.map_eq_some_iff.mp found
  rw [message?, ← grown, find?_append, selected]
  rfl

theorem additions_extends (grown : store.messages <+: after.messages) {row : CheckpointRow D}
    (resolved : ∀ messageId ∈ row.messageIds,
      ∃ message, store.message? row.conversationId messageId = some message) :
    after.additions row = store.additions row := by
  refine filterMap_congr fun messageId member => ?_
  obtain ⟨message, found⟩ := resolved messageId member
  rw [found, message?_extends grown found]

theorem Belongs.extends {checkpointId : CheckpointId} {conversationId : ConversationId}
    (belongs : store.Belongs checkpointId conversationId)
    (grown : store.checkpoints <+: after.checkpoints) :
    after.Belongs checkpointId conversationId := by
  obtain ⟨row, member, named, home⟩ := belongs
  exact ⟨row, grown.subset member, named, home⟩

theorem message?_of_mem (conversationId : ConversationId) (message : CanonicalMessage)
    (separate : store.messages.Pairwise fun first second =>
      first.blocks second.conversationId second.message = false)
    (member : ⟨conversationId, message⟩ ∈ store.messages) :
    store.message? conversationId message.messageId = some message := by
  rw [message?]
  generalize store.messages = rows at separate member
  induction rows with
  | nil => cases member
  | cons row rows ih =>
    obtain ⟨apart, separate⟩ := pairwise_cons.mp separate
    rcases mem_cons.mp member with rfl | later
    · simp
    · have other := apart _ later
      rw [find?_cons_of_neg]
      · exact ih separate later
      · simp only [MessageRow.blocks, Bool.and_eq_false_iff, Bool.or_eq_false_iff] at other
        simp only [Bool.and_eq_true, decide_eq_true_eq, not_and]
        intro same
        rcases other with different | ⟨different, -⟩
        · exact absurd same (by simpa using different)
        · simpa using different

end Reading

theorem Extends.frame {store after : Store D} (messages : after.messages = store.messages)
    (checkpoints : after.checkpoints = store.checkpoints)
    (next : after.nextCheckpointId = store.nextCheckpointId) : Extends store after :=
  ⟨messages ▸ prefix_rfl, checkpoints ▸ prefix_rfl, Nat.le_of_eq next.symm⟩

theorem Extends.refl (store : Store D) : Extends store store := .frame rfl rfl rfl

theorem Extends.trans {first second third : Store D} (one : Extends first second)
    (two : Extends second third) : Extends first third :=
  ⟨one.messages.trans two.messages, one.checkpoints.trans two.checkpoints,
    Nat.le_trans one.nextCheckpointId two.nextCheckpointId⟩

section Claim

variable (prepared : PreparedRun) (nowMs : Int) (store : Store D)

theorem cancelReplaced_frame : cancelReplaced prepared store =
    { store with runs := (cancelReplaced prepared store).runs } := by
  unfold cancelReplaced
  split <;> rfl

@[simp] theorem claim_messages : (claim prepared nowMs store).messages = store.messages := by
  rw [claim, cancelReplaced_frame]
  rfl

@[simp] theorem claim_checkpoints :
    (claim prepared nowMs store).checkpoints = store.checkpoints := by
  rw [claim, cancelReplaced_frame]
  rfl

@[simp] theorem claim_nextCheckpointId :
    (claim prepared nowMs store).nextCheckpointId = store.nextCheckpointId := by
  rw [claim, cancelReplaced_frame]
  rfl

@[simp] theorem claim_conversations : (claim prepared nowMs store).conversations =
    Function.update store.conversations prepared.conversationId
      (some ⟨some prepared.baseCheckpointId, some prepared.runId⟩) := by
  rw [claim, cancelReplaced_frame]
  rfl

@[simp] theorem claim_toolRounds : (claim prepared nowMs store).toolRounds = store.toolRounds := by
  rw [claim, cancelReplaced_frame]
  rfl

theorem claim_runs (runId : RunId) : (claim prepared nowMs store).runs runId =
    if runId = prepared.runId then some (claimedRow prepared nowMs)
    else if store.replacedBy prepared = some runId then (store.runs runId).map RunRow.cancel
    else store.runs runId := by
  by_cases new : runId = prepared.runId
  · simp [claim, new, insertConversation, insertRun]
  · cases replaced : store.replacedBy prepared with
    | none => simp [claim, cancelReplaced, replaced, new, insertConversation, insertRun]
    | some old =>
      by_cases same : runId = old
      · subst same
        simp [claim, cancelReplaced, replaced, new, insertConversation, insertRun]
      · have other : ¬ old = runId := fun equal => same equal.symm
        simp [claim, cancelReplaced, replaced, new, same, other, insertConversation, insertRun]

end Claim

theorem writes_extends {store after : Store D} (wrote : Writes store after) :
    Extends store after := by
  cases wrote with
  | createConversation => exact ⟨prefix_rfl, prefix_append _ _, Nat.le_succ _⟩
  | insertMessage => exact ⟨prefix_append _ _, prefix_rfl, Nat.le_refl _⟩
  | insertCheckpoint => exact ⟨prefix_rfl, prefix_append _ _, Nat.le_succ _⟩
  | advance => exact .frame rfl rfl rfl
  | claim prepared nowMs =>
    exact .frame (claim_messages prepared nowMs store) (claim_checkpoints prepared nowMs store)
      (claim_nextCheckpointId prepared nowMs store)
  | finish => exact .frame rfl rfl rfl
  | reconcile => exact .frame rfl rfl rfl
  | toolRounds => exact .frame rfl rfl rfl

/-! ### The chain -/

namespace Chained

variable {store after : Store D}

theorem frame (chained : store.Chained) (messages : after.messages = store.messages)
    (checkpoints : after.checkpoints = store.checkpoints)
    (next : after.nextCheckpointId = store.nextCheckpointId)
    (conversations : ∀ conversationId, (after.conversations conversationId).isSome =
      (store.conversations conversationId).isSome) : after.Chained := by
  have additions : ∀ row, after.additions row = store.additions row := by
    intro row
    unfold Store.additions message?
    rw [messages]
  have found : ∀ conversationId messageId,
      after.message? conversationId messageId = store.message? conversationId messageId := by
    intro conversationId messageId
    simp only [message?, messages]
  constructor
  · rw [checkpoints]
    exact chained.grown
  · rw [checkpoints, next]
    exact chained.bounded
  · simpa only [checkpoints, additions] using chained.linked
  · rw [checkpoints]
    exact chained.rooted
  · simpa only [checkpoints, found] using chained.stored
  · rw [checkpoints]
    exact chained.distinct
  · rw [messages]
    exact chained.messages
  · rw [checkpoints]
    exact chained.digests
  · simpa only [checkpoints, conversations] using chained.home
  · simpa only [checkpoints, conversations] using chained.root

theorem additions_eq (chained : store.Chained) (grown : store.messages <+: after.messages)
    {row : CheckpointRow D} (member : row ∈ store.checkpoints) :
    after.additions row = store.additions row :=
  additions_extends grown (chained.stored row member)

theorem insertMessage (chained : store.Chained) {conversationId : ConversationId}
    {message : CanonicalMessage}
    (free : ∀ row ∈ store.messages, row.blocks conversationId message = false) :
    (store.insertMessage conversationId message).Chained := by
  have grown : store.messages <+: (store.insertMessage conversationId message).messages :=
    prefix_append _ _
  refine ⟨chained.grown, chained.bounded, ?_, chained.rooted, ?_, chained.distinct, ?_,
    chained.digests, chained.home, chained.root⟩
  · intro row member parent linked
    rw [chained.additions_eq grown member]
    exact chained.linked row member parent linked
  · intro row member messageId listed
    obtain ⟨found, equal⟩ := chained.stored row member messageId listed
    exact ⟨found, message?_extends grown equal⟩
  · refine pairwise_append.mpr ⟨chained.messages, pairwise_singleton _ _, ?_⟩
    intro old member new last
    obtain rfl := mem_singleton.mp last
    exact free old member

theorem insertRow (chained : store.Chained) (row : CheckpointRow D)
    (messages : after.messages = store.messages)
    (checkpoints : after.checkpoints = store.checkpoints ++ [row])
    (next : after.nextCheckpointId = store.nextCheckpointId + 1)
    (conversations : ∀ conversationId, (after.conversations conversationId).isSome ↔
      (store.conversations conversationId).isSome ∨ conversationId = row.conversationId)
    (named : row.checkpointId = ⟨store.nextCheckpointId⟩)
    (linked : ∀ parent ∈ row.parentCheckpointId, ∃ above ∈ store.checkpoints,
      above.checkpointId = parent ∧ above.conversationId = row.conversationId ∧
        row.stateDigest = chainedDigest above.stateDigest (store.additions row))
    (rooted : row.parentCheckpointId = none → row.stateDigest = rootDigest ∧ row.messageIds = [])
    (stored : ∀ messageId ∈ row.messageIds,
      ∃ message, store.message? row.conversationId messageId = some message)
    (distinct : row.messageIds.Nodup)
    (unused : store.checkpointByDigest row.conversationId row.stateDigest = none) :
    after.Chained := by
  have additions : ∀ row, after.additions row = store.additions row := by
    intro row
    unfold Store.additions message?
    rw [messages]
  have found : ∀ conversationId messageId,
      after.message? conversationId messageId = store.message? conversationId messageId := by
    intro conversationId messageId
    simp only [message?, messages]
  -- every field splits into the old rows and the new one
  have cases_row : ∀ {motive : CheckpointRow D → Prop}, (∀ old ∈ store.checkpoints, motive old) →
      motive row → ∀ other ∈ after.checkpoints, motive other := by
    intro motive olds new other member
    rw [checkpoints] at member
    rcases mem_append.mp member with old | last
    · exact olds other old
    · obtain rfl := mem_singleton.mp last
      exact new
  have old_mem : ∀ old ∈ store.checkpoints, old ∈ after.checkpoints := by
    intro old member
    rw [checkpoints]
    exact mem_append_left _ member
  constructor
  · rw [checkpoints]
    refine chained.grown.snoc (fun old member equal => ?_) (fun parent link => ?_)
    · have bound := chained.bounded old member
      rw [equal, named] at bound
      exact Nat.lt_irrefl _ bound
    · obtain ⟨above, member, equal, -⟩ := linked parent link
      exact ⟨above, member, equal⟩
  · rw [next]
    refine cases_row (fun old member => Nat.lt_succ_of_lt (chained.bounded old member)) ?_
    rw [named]
    exact Nat.lt_succ_self _
  · refine cases_row (fun old member parent link => ?_) (fun parent link => ?_)
    · obtain ⟨above, aboveMember, rest⟩ := chained.linked old member parent link
      rw [additions]
      exact ⟨above, old_mem above aboveMember, rest⟩
    · obtain ⟨above, member, equal, home, digest⟩ := linked parent link
      refine ⟨above, old_mem above member, equal, home, ?_, by rw [additions]; exact digest⟩
      rw [named]
      exact chained.bounded above member
  · exact cases_row chained.rooted rooted
  · simp only [found]
    exact cases_row chained.stored stored
  · exact cases_row chained.distinct distinct
  · rw [messages]
    exact chained.messages
  · rw [checkpoints]
    refine pairwise_append.mpr ⟨chained.digests, pairwise_singleton _ _, ?_⟩
    intro old member new last
    obtain rfl := mem_singleton.mp last
    exact checkpointByDigest_eq_none.mp unused old member
  · exact cases_row (fun old member => (conversations _).mpr (.inl (chained.home old member)))
      ((conversations _).mpr (.inr rfl))
  · intro conversationId known
    rcases (conversations conversationId).mp known with old | rfl
    · obtain ⟨root, member, home, top⟩ := chained.root conversationId old
      exact ⟨root, old_mem root member, home, top⟩
    · -- a first row of its conversation is the root: a child has a parent there
      cases link : row.parentCheckpointId with
      | none =>
        refine ⟨row, ?_, rfl, link⟩
        rw [checkpoints]
        exact mem_append_right _ (mem_singleton_self row)
      | some parent =>
        obtain ⟨above, member, -, home, -⟩ := linked parent link
        obtain ⟨root, rootMember, rootHome, top⟩ :=
          chained.root above.conversationId (chained.home above member)
        exact ⟨root, old_mem root rootMember, rootHome.trans home, top⟩

theorem createConversation (chained : store.Chained) {conversationId : ConversationId}
    (unused : store.checkpointByDigest conversationId rootDigest = none) :
    (store.createConversation conversationId).Chained := by
  refine chained.insertRow
    ⟨⟨store.nextCheckpointId⟩, conversationId, none, rootDigest, []⟩ rfl rfl rfl ?_ rfl
    (by simp) (fun _ => ⟨rfl, rfl⟩) (by simp) (by simp) unused
  intro other
  by_cases same : other = conversationId
  · simp [same]
  · simp [same]

theorem additions_stored (chained : store.Chained) {conversationId : ConversationId}
    {messages : List CanonicalMessage}
    (stored : ∀ message ∈ messages, ⟨conversationId, message.payload⟩ ∈ store.messages) :
    (messages.map (·.messageId)).filterMap (store.message? conversationId) =
      messages.map (·.payload) := by
  induction messages with
  | nil => rfl
  | cons message rest ih =>
    have found : store.message? conversationId message.messageId = some message.payload :=
      message?_of_mem conversationId message.payload chained.messages
        (stored message mem_cons_self)
    rw [map_cons, filterMap_cons, found, map_cons,
      ih fun other member => stored other (mem_cons_of_mem _ member)]

theorem insertCheckpoint (chained : store.Chained) {above : CheckpointRow D}
    {messages : List CanonicalMessage} (member : above ∈ store.checkpoints)
    (stored : ∀ message ∈ messages, ⟨above.conversationId, message.payload⟩ ∈ store.messages)
    (distinct : (messages.map (·.messageId)).Nodup)
    (unused : store.checkpointByDigest above.conversationId
      (chainedDigest above.stateDigest messages) = none) :
    (insertCheckpointRow above.conversationId (some above.checkpointId)
      (chainedDigest above.stateDigest messages) (messages.map (·.messageId)) store).Chained := by
  refine chained.insertRow ⟨⟨store.nextCheckpointId⟩, above.conversationId,
    some above.checkpointId, chainedDigest above.stateDigest messages,
    messages.map (·.messageId)⟩ rfl rfl rfl ?_ rfl ?_ (by simp) ?_ distinct unused
  · intro other
    refine ⟨.inl, ?_⟩
    rintro (known | rfl)
    · exact known
    · exact chained.home above member
  · rintro parent ⟨⟩
    refine ⟨above, member, rfl, rfl, ?_⟩
    rw [Store.additions, chained.additions_stored stored, chainedDigest_payload]
  · intro messageId listed
    obtain ⟨message, messageMember, rfl⟩ := mem_map.mp listed
    exact ⟨message.payload, message?_of_mem _ message.payload chained.messages
      (stored message messageMember)⟩

end Chained

/-! ### The owner -/

namespace Owned

variable {store after : Store D}

theorem frame (owned : store.Owned) (checkpoints : store.checkpoints <+: after.checkpoints)
    (conversations : after.conversations = store.conversations) (runs : after.runs = store.runs) :
    after.Owned := by
  constructor
  · intro conversationId row found
    rw [conversations] at found
    obtain ⟨checkpointId, current, belongs⟩ := owned.current conversationId row found
    exact ⟨checkpointId, current, belongs.extends checkpoints⟩
  · rw [conversations, runs]
    exact owned.active
  · rw [conversations, runs]
    exact owned.running
  · intro runId run found
    rw [runs] at found
    exact (owned.head runId run found).extends checkpoints

theorem createConversation (owned : store.Owned) {conversationId : ConversationId}
    (absent : (store.conversations conversationId).bind (·.currentCheckpointId) = none) :
    (store.createConversation conversationId).Owned := by
  have missing : store.conversations conversationId = none := by
    cases found : store.conversations conversationId with
    | none => rfl
    | some row =>
      obtain ⟨checkpointId, current, -⟩ := owned.current conversationId row found
      simp [found, current] at absent
  have grown : store.checkpoints <+: (store.createConversation conversationId).checkpoints :=
    prefix_append _ _
  constructor
  · intro other row found
    by_cases same : other = conversationId
    · subst same
      simp only [createConversation_conversations, Function.update_self, Option.some.injEq] at found
      subst found
      exact ⟨⟨store.nextCheckpointId⟩, rfl, _, mem_append_right _ (mem_singleton_self _),
        rfl, rfl⟩
    · simp only [createConversation_conversations, Function.update_of_ne same] at found
      obtain ⟨checkpointId, current, belongs⟩ := owned.current other row found
      exact ⟨checkpointId, current, belongs.extends grown⟩
  · intro other row runId found active
    by_cases same : other = conversationId
    · subst same
      simp only [createConversation_conversations, Function.update_self, Option.some.injEq] at found
      subst found
      simp [missing] at active
    · simp only [createConversation_conversations, Function.update_of_ne same] at found
      exact owned.active other row runId found active
  · intro runId run found status
    obtain ⟨row, home, active⟩ := owned.running runId run found status
    refine ⟨row, ?_, active⟩
    have other : run.conversationId ≠ conversationId := by
      rintro rfl
      rw [missing] at home
      cases home
    simpa [createConversation_conversations, Function.update_of_ne other] using home
  · intro runId run found
    exact (owned.head runId run found).extends grown

theorem advance (owned : store.Owned) {row : CheckpointRow D} {runId : RunId}
    {expected : CheckpointId}
    (owner : store.conversations row.conversationId = some ⟨some expected, some runId⟩)
    (member : row ∈ store.checkpoints) :
    (store.advance row.conversationId runId row.checkpointId).Owned := by
  obtain ⟨run, found, status, home, -⟩ :=
    owned.active row.conversationId _ runId owner rfl
  have belongs : store.Belongs row.checkpointId row.conversationId := ⟨row, member, rfl, rfl⟩
  constructor
  · intro other row' found'
    by_cases same : other = row.conversationId
    · subst same
      simp only [advance_conversations, Function.update_self, owner, Option.map_some,
        Option.some.injEq] at found'
      subst found'
      exact ⟨row.checkpointId, rfl, belongs⟩
    · simp only [advance_conversations, Function.update_of_ne same] at found'
      exact owned.current other row' found'
  · intro other row' otherRun found' active
    by_cases same : other = row.conversationId
    · subst same
      simp only [advance_conversations, Function.update_self, owner, Option.map_some,
        Option.some.injEq] at found'
      subst found'
      obtain rfl := Option.some.inj active
      refine ⟨{ run with headCheckpointId := row.checkpointId }, ?_, status, home, rfl⟩
      simp [advance_runs, found]
    · simp only [advance_conversations, Function.update_of_ne same] at found'
      obtain ⟨run', found'', status', home', current'⟩ :=
        owned.active other row' otherRun found' active
      have different : otherRun ≠ runId := by
        rintro rfl
        rw [found] at found''
        cases found''
        exact same (home'.symm.trans home)
      refine ⟨run', ?_, status', home', current'⟩
      simpa [advance_runs, Function.update_of_ne different] using found''
  · intro otherRun run' found' status'
    by_cases same : otherRun = runId
    · subst same
      simp only [advance_runs, Function.update_self, found, Option.map_some,
        Option.some.injEq] at found'
      subst found'
      refine ⟨⟨some row.checkpointId, some otherRun⟩, ?_, rfl⟩
      simp [advance_conversations, home, owner]
    · simp only [advance_runs, Function.update_of_ne same] at found'
      obtain ⟨row', home', active'⟩ := owned.running otherRun run' found' status'
      have different : run'.conversationId ≠ row.conversationId := by
        intro equal
        rw [equal, owner] at home'
        cases home'
        exact same (Option.some.inj active').symm
      refine ⟨row', ?_, active'⟩
      simpa [advance_conversations, Function.update_of_ne different] using home'
  · intro otherRun run' found'
    by_cases same : otherRun = runId
    · subst same
      simp only [advance_runs, Function.update_self, found, Option.map_some,
        Option.some.injEq] at found'
      subst found'
      show store.Belongs row.checkpointId run.conversationId
      rw [home]
      exact belongs
    · simp only [advance_runs, Function.update_of_ne same] at found'
      exact owned.head otherRun run' found'

theorem replacedBy_eq_some {prepared : PreparedRun} {runId : RunId} :
    store.replacedBy prepared = some runId ↔
      (store.conversations prepared.conversationId).bind (·.activeRunId) = some runId ∧
        runId ≠ prepared.runId := by
  unfold replacedBy
  split
  · rename_i none
    simp [none]
  · rename_i replaced active
    rw [active]
    by_cases same : replaced = prepared.runId
    · simp only [same, if_true, reduceCtorEq, false_iff, not_and, not_not, Option.some.injEq]
      exact fun equal => equal.symm
    · simp only [same, if_false, Option.some.injEq]
      constructor
      · rintro rfl
        exact ⟨rfl, same⟩
      · exact fun both => both.1

theorem claim (owned : store.Owned) {prepared : PreparedRun} {nowMs : Int} {base : CheckpointRow D}
    (member : base ∈ store.checkpoints) (named : base.checkpointId = prepared.baseCheckpointId)
    (belongs : base.conversationId = prepared.conversationId)
    (fresh : store.runs prepared.runId = none) : (store.claim prepared nowMs).Owned := by
  have home : store.Belongs prepared.baseCheckpointId prepared.conversationId :=
    ⟨base, member, named, belongs⟩
  have grown : store.checkpoints <+: (store.claim prepared nowMs).checkpoints := by simp
  constructor
  · intro other row found
    by_cases same : other = prepared.conversationId
    · subst same
      simp only [claim_conversations, Function.update_self, Option.some.injEq] at found
      subst found
      exact ⟨prepared.baseCheckpointId, rfl, home.extends grown⟩
    · simp only [claim_conversations, Function.update_of_ne same] at found
      obtain ⟨checkpointId, current, old⟩ := owned.current other row found
      exact ⟨checkpointId, current, old.extends grown⟩
  · intro other row runId found active
    by_cases same : other = prepared.conversationId
    · subst same
      simp only [claim_conversations, Function.update_self, Option.some.injEq] at found
      subst found
      obtain rfl := Option.some.inj active
      exact ⟨claimedRow prepared nowMs, by simp [claim_runs], rfl, rfl, rfl⟩
    · simp only [claim_conversations, Function.update_of_ne same] at found
      obtain ⟨run, foundRun, status, homeRun, current⟩ := owned.active other row runId found active
      refine ⟨run, ?_, status, homeRun, current⟩
      have different : runId ≠ prepared.runId := by
        rintro rfl
        rw [fresh] at foundRun
        cases foundRun
      have kept : store.replacedBy prepared ≠ some runId := by
        rw [Ne, replacedBy_eq_some]
        rintro ⟨claimed, -⟩
        obtain ⟨replaced, foundReplaced, activeReplaced⟩ := Option.bind_eq_some_iff.mp claimed
        obtain ⟨run', foundRun', -, home', -⟩ :=
          owned.active _ replaced runId foundReplaced activeReplaced
        rw [foundRun] at foundRun'
        cases foundRun'
        exact same (homeRun.symm.trans home')
      rw [claim_runs, if_neg different, if_neg kept, foundRun]
  · intro runId run found status
    rw [claim_runs] at found
    split at found
    · rename_i new
      subst new
      cases found
      refine ⟨⟨some prepared.baseCheckpointId, some prepared.runId⟩, ?_, rfl⟩
      simp [claimedRow]
    · rename_i old
      split at found
      · obtain ⟨run', -, rfl⟩ := Option.map_eq_some_iff.mp found
        -- the replaced run is not running any more
        unfold RunRow.cancel at status
        split at status
        · cases status
        · contradiction
      · rename_i kept
        obtain ⟨row, foundRow, active⟩ := owned.running runId run found status
        have elsewhere : run.conversationId ≠ prepared.conversationId := by
          intro equal
          refine kept (replacedBy_eq_some.mpr ⟨?_, old⟩)
          rw [← equal, foundRow, Option.bind_some, active]
        refine ⟨row, ?_, active⟩
        simpa [Function.update_of_ne elsewhere] using foundRow
  · intro runId run found
    refine Belongs.extends ?_ grown
    rw [claim_runs] at found
    split at found
    · cases found
      exact home
    · split at found
      · obtain ⟨run', found', rfl⟩ := Option.map_eq_some_iff.mp found
        have old := owned.head runId run' found'
        unfold RunRow.cancel
        split <;> exact old
      · exact owned.head runId run found

theorem finish (owned : store.Owned) {runId : RunId} {row : RunRow} {status : RunStatus}
    {failure : Option (String × String)} (found : store.runs runId = some row)
    (terminal : row.status = .running → status ≠ .running) :
    (release row.conversationId runId (updateRun runId (·.finish status failure) store)).Owned := by
  have keeps : (row.finish status failure).conversationId = row.conversationId ∧
      (row.finish status failure).headCheckpointId = row.headCheckpointId := by
    unfold RunRow.finish
    split <;> exact ⟨rfl, rfl⟩
  have stopped : (row.finish status failure).status ≠ .running := by
    unfold RunRow.finish
    split
    · exact terminal ‹_›
    · assumption
  constructor
  · intro other conversation foundOther
    by_cases same : other = row.conversationId
    · subst same
      simp only [release_conversations, Function.update_self, updateRun_conversations] at foundOther
      obtain ⟨old, foundOld, rfl⟩ := Option.map_eq_some_iff.mp foundOther
      obtain ⟨checkpointId, current, belongs⟩ := owned.current _ old foundOld
      refine ⟨checkpointId, ?_, belongs⟩
      split <;> exact current
    · simp only [release_conversations, Function.update_of_ne same,
        updateRun_conversations] at foundOther
      exact owned.current other conversation foundOther
  · intro other conversation otherRun foundOther active
    obtain ⟨old, foundOld, oldActive, oldCurrent, different⟩ : ∃ old,
        store.conversations other = some old ∧ old.activeRunId = some otherRun ∧
          conversation.currentCheckpointId = old.currentCheckpointId ∧ otherRun ≠ runId := by
      by_cases same : other = row.conversationId
      · subst same
        simp only [release_conversations, Function.update_self,
          updateRun_conversations] at foundOther
        obtain ⟨old, foundOld, rfl⟩ := Option.map_eq_some_iff.mp foundOther
        split at active
        · cases active
        · rename_i kept
          refine ⟨old, foundOld, active, by rw [if_neg kept], ?_⟩
          rintro rfl
          exact kept active
      · simp only [release_conversations, Function.update_of_ne same,
          updateRun_conversations] at foundOther
        refine ⟨conversation, foundOther, active, rfl, ?_⟩
        rintro rfl
        obtain ⟨run', foundRun', -, home', -⟩ :=
          owned.active other conversation otherRun foundOther active
        rw [found] at foundRun'
        cases foundRun'
        exact same home'.symm
    obtain ⟨run', foundRun', status', home', current'⟩ :=
      owned.active other old otherRun foundOld oldActive
    refine ⟨run', ?_, status', home', oldCurrent.trans current'⟩
    simpa [release_runs, Function.update_of_ne different] using foundRun'
  · intro otherRun run' foundRun' status'
    by_cases same : otherRun = runId
    · subst same
      simp only [release_runs, updateRun_runs, Function.update_self, found,
        Option.map_some, Option.some.injEq] at foundRun'
      subst foundRun'
      exact absurd status' stopped
    · simp only [release_runs, updateRun_runs,
        Function.update_of_ne same] at foundRun'
      obtain ⟨conversation, home', active⟩ := owned.running otherRun run' foundRun' status'
      by_cases here : run'.conversationId = row.conversationId
      · refine ⟨conversation, ?_, active⟩
        have kept : conversation.activeRunId ≠ some runId := by
          rw [active]
          exact fun equal => same (Option.some.inj equal)
        rw [here] at home'
        simp [release_conversations, here, home', kept]
      · refine ⟨conversation, ?_, active⟩
        simpa [release_conversations, Function.update_of_ne here] using home'
  · intro otherRun run' foundRun'
    by_cases same : otherRun = runId
    · subst same
      simp only [release_runs, updateRun_runs, Function.update_self, found,
        Option.map_some, Option.some.injEq] at foundRun'
      subst foundRun'
      rw [keeps.1, keeps.2]
      exact owned.head otherRun row found
    · simp only [release_runs, updateRun_runs,
        Function.update_of_ne same] at foundRun'
      exact owned.head otherRun run' foundRun'

theorem reconcile (owned : store.Owned) (processStartedAtMs : Int) :
    (store.reconcile processStartedAtMs).Owned := by
  have keeps : ∀ run : RunRow, (run.interrupt processStartedAtMs).conversationId =
      run.conversationId ∧ (run.interrupt processStartedAtMs).headCheckpointId =
        run.headCheckpointId := by
    intro run
    unfold RunRow.interrupt
    split <;> exact ⟨rfl, rfl⟩
  -- a row keeps its active run unless that run is interrupted
  have reconciled : ∀ row, (store.reconciledConversation processStartedAtMs row).currentCheckpointId
      = row.currentCheckpointId ∧
      ∀ runId, (store.reconciledConversation processStartedAtMs row).activeRunId = some runId ↔
        row.activeRunId = some runId ∧
          (store.runs runId).any (·.interrupted processStartedAtMs) = false := by
    intro row
    unfold reconciledConversation
    cases active : row.activeRunId with
    | none => simp [active]
    | some old =>
      by_cases gone : (store.runs old).any (·.interrupted processStartedAtMs) = true
      · simp only [gone, if_true, reduceCtorEq, false_iff, true_and, not_and]
        rintro runId ⟨⟩
        simp [gone]
      · rw [Bool.not_eq_true] at gone
        simp only [gone, Bool.false_eq_true, if_false, active, true_and]
        intro runId
        constructor
        · rintro ⟨⟩
          exact ⟨rfl, gone⟩
        · exact fun both => both.1
  constructor
  · intro conversationId row found
    obtain ⟨old, foundOld, rfl⟩ := Option.map_eq_some_iff.mp found
    obtain ⟨checkpointId, current, belongs⟩ := owned.current conversationId old foundOld
    exact ⟨checkpointId, (reconciled old).1.trans current, belongs⟩
  · intro conversationId row runId found active
    obtain ⟨old, foundOld, rfl⟩ := Option.map_eq_some_iff.mp found
    obtain ⟨oldActive, kept⟩ := ((reconciled old).2 runId).mp active
    obtain ⟨run, foundRun, status, home, current⟩ :=
      owned.active conversationId old runId foundOld oldActive
    refine ⟨run, ?_, status, home, (reconciled old).1.trans current⟩
    rw [foundRun, Option.any_some] at kept
    simp [foundRun, RunRow.interrupt, kept]
  · intro runId run found status
    obtain ⟨old, foundOld, rfl⟩ := Option.map_eq_some_iff.mp found
    have kept : old.interrupted processStartedAtMs = false := by
      by_contra gone
      rw [Bool.not_eq_false] at gone
      simp [RunRow.interrupt, gone] at status
    have same : old.interrupt processStartedAtMs = old := by
      simp [RunRow.interrupt, kept]
    rw [same] at status ⊢
    obtain ⟨row, home, active⟩ := owned.running runId old foundOld status
    refine ⟨_, by rw [reconcile_conversations, home]; rfl, ((reconciled row).2 runId).mpr ⟨active, ?_⟩⟩
    rw [foundOld]
    exact kept
  · intro runId run found
    obtain ⟨old, foundOld, rfl⟩ := Option.map_eq_some_iff.mp found
    rw [(keeps old).1, (keeps old).2]
    exact owned.head runId old foundOld

end Owned

/-! ### Every write -/

/-- **A write keeps the store well formed.** -/
theorem wellFormed_writes {store after : Store D} (wellFormed : store.WellFormed)
    (wrote : Writes store after) : after.WellFormed := by
  obtain ⟨chained, owned⟩ := wellFormed
  cases wrote with
  | createConversation conversationId absent unused =>
    exact ⟨chained.createConversation unused, owned.createConversation absent⟩
  | insertMessage conversationId message free =>
    exact ⟨chained.insertMessage free, owned.frame prefix_rfl rfl rfl⟩
  | insertCheckpoint above additions member stored distinct unused =>
    exact ⟨chained.insertCheckpoint member stored distinct unused,
      owned.frame (prefix_append _ _) rfl rfl⟩
  | advance row runId expected owner member =>
    refine ⟨chained.frame rfl rfl rfl fun other => ?_, owned.advance owner member⟩
    by_cases same : other = row.conversationId
    · simp [same]
    · simp [same]
  | claim prepared nowMs base member named belongs fresh =>
    refine ⟨chained.frame (by simp) (by simp) (by simp) fun other => ?_,
      owned.claim member named belongs fresh⟩
    by_cases same : other = prepared.conversationId
    · have known := chained.home base member
      rw [belongs] at known
      simp [same, known]
    · simp [same]
  | finish runId row status failure found terminal =>
    refine ⟨chained.frame rfl rfl rfl fun other => ?_, owned.finish found terminal⟩
    by_cases same : other = row.conversationId
    · simp [same]
    · simp [same]
  | reconcile processStartedAtMs =>
    exact ⟨chained.frame rfl rfl rfl fun other => by simp, owned.reconcile processStartedAtMs⟩
  | toolRounds rounds =>
    exact ⟨chained.frame rfl rfl rfl fun _ => rfl, owned.frame prefix_rfl rfl rfl⟩

theorem wellFormed_empty : (empty : Store D).WellFormed := by
  refine ⟨⟨.nil, ?_, ?_, ?_, ?_, ?_, .nil, .nil, ?_, ?_⟩, ⟨?_, ?_, ?_, ?_⟩⟩ <;> simp [empty]

/-- Any number of writes. -/
abbrev WritesMany : Store D → Store D → Prop := Relation.ReflTransGen Writes

theorem wellFormed_writesMany {store after : Store D} (wellFormed : store.WellFormed)
    (wrote : WritesMany store after) : after.WellFormed := by
  induction wrote with
  | refl => exact wellFormed
  | tail _ step ih => exact wellFormed_writes ih step

theorem writesMany_extends {store after : Store D} (wrote : WritesMany store after) :
    Extends store after := by
  induction wrote with
  | refl => exact Extends.refl _
  | tail _ step ih => exact ih.trans (writes_extends step)

end Store

end Byok
