/-
**Messages one by one, and as a batch.** `append_message_once` of `server/src/store/checkpoints.rs`.

A batch compares a message with one that it has inserted itself in memory, and with any other one by
reading back the JSON text that is stored. The text of a float may read back as another float.

* `appendOneMessageOnce`, `appendOneByOne` — a message as a batch of its own, and a list of messages
  each below the one before.
* `Rereads` — a list none of whose messages is taken for another one, or not for itself, once it is
  read back.
* `Halfway.accords` — what one message does to the batch, it does to the store that the messages
  before it led to.
* `appendOneByOne_eq` — the list leaves what the batch leaves, and fails where the batch fails.
-/

import Byok.Store.Reappend

set_option linter.unusedSectionVars false

namespace Byok

open Library Transaction List

variable {D : Type} [DecidableEq D] [ChainHash D]

/-- A message that is read back from its JSON text: ids, role and origin are strings, which read
back as they are. -/
def CanonicalMessage.reread (reread : MessageContent → MessageContent)
    (message : CanonicalMessage) :
    CanonicalMessage :=
  { message with content := reread message.content }

namespace Store

/-! ### One by one -/

variable (reread : MessageContent → MessageContent)

/-- What the store holds under the identity that `message` collides with: a message that the batch
has inserted is at hand, any other one is read back from `payload_json`. -/
def storedText (conversationId : ConversationId) (message : CanonicalMessage)
    (identity : ChainIdentity)
    (store : Store D) : Bool :=
  match identity.body with
  | some stored => stored = message
  | none => (store.message? conversationId message.messageId).map (·.reread reread) = some message

/-- The body of the loop of `append_messages_once`. -/
abbrev appendMessageReading (conversationId : ConversationId) (state : AppendState D)
    (message : CanonicalMessage) :
    StoreTransaction D (AppendState D) :=
  appendMessageWith (storedText reread conversationId) conversationId state message

/-- `append_messages_once`. -/
abbrev appendMessagesReading (conversationId : ConversationId) (runId : RunId)
    (expected : CheckpointId)
    (known : List ChainIdentity) (messages : List CanonicalMessage) :
    StoreTransaction D (List (CheckpointId × Bool)) :=
  appendMessagesWith (storedText reread conversationId) conversationId runId expected known messages

/-- `append_message_once`. -/
def appendOneMessageOnce (conversationId : ConversationId) (runId : RunId) (expected : CheckpointId)
    (message : CanonicalMessage) : StoreTransaction D (CheckpointId × Bool) := do
  let known ← read (·.chainIdentities conversationId expected)
  let appended ← appendMessagesReading reread conversationId runId expected known [message]
  orFail appended.getLast? (.store "one message appended")

/-- The messages of a list, each below the checkpoint that the one before it led to. -/
def appendOneByOne (conversationId : ConversationId) (runId : RunId) :
    CheckpointId → List CanonicalMessage → StoreTransaction D (List (CheckpointId × Bool))
  | _, [] => pure []
  | expected, message :: rest => do
    let appended ← appendOneMessageOnce reread conversationId runId expected message
    let others ← appendOneByOne conversationId runId appended.1 rest
    pure (appended :: others)

/-- Where the chain has no message of the identity of `later`, an earlier message with its id is
read back as it exactly when it is the same. -/
def RereadsAs (known : List ChainIdentity) (earlier later : CanonicalMessage) : Prop :=
  earlier.messageId = later.messageId → known.any (·.matches later) = false →
    (earlier.reread reread = later ↔ earlier = later)

/-- No message of a list is taken for an earlier one, or not taken for it, because of how that one
is read back. -/
def Rereads (known : List ChainIdentity) (messages : List CanonicalMessage) : Prop :=
  messages.Pairwise (RereadsAs reread known)

variable {reread}
variable {store after between later : Store D} {conversationId : ConversationId} {runId : RunId}
  {expected head : CheckpointId} {message : CanonicalMessage}

/-! ### What does not look at who owns a conversation -/

section Advance

theorem putMessages_commutes (checkpointId : CheckpointId) (messages : List CanonicalMessage) :
    Commutes (advance conversationId runId checkpointId)
      (putMessages conversationId messages : StoreTransaction D Unit) := by
  induction messages with
  | nil => exact .pure ()
  | cons message rest ih =>
    refine .bind (.bind (.read fun _ => rfl) fun inserted => ?_) fun _ => ih
    split
    · exact .write fun _ => rfl
    · refine .bind (.read fun _ => rfl) fun existing => ?_
      cases existing with
      | none => exact .fail _
      | some existing =>
        dsimp only
        split
        · exact .pure ()
        · exact .fail _

theorem insertCheckpoint_commutes (checkpointId parent : CheckpointId)
    (additions : List CanonicalMessage) (digest : D) :
    Commutes (advance conversationId runId checkpointId)
      (insertCheckpoint conversationId parent additions digest) := by
  refine .bind (putMessages_commutes checkpointId additions) fun _ => ?_
  refine .bind (.read fun _ => rfl) fun _ => .bind (.require _ _) fun _ => .bind (.require _ _)
    fun _ => ?_
  exact .bind (.read fun _ => rfl) fun _ => .bind (.write fun _ => rfl) fun _ => .pure _

theorem advance_advance (first second : CheckpointId) :
    advance conversationId runId second (advance conversationId runId first store) =
      advance conversationId runId second store := by
  simp only [advance, updateRun, updateConversation, Function.update_self, Function.update_idem,
    Option.map_map]
  rfl

end Advance

/-! ### One message -/

section Message

variable {holds : CanonicalMessage → ChainIdentity → Store D → Bool} (state : AppendState D)
  (store : Store D)
  {identity : ChainIdentity}

theorem appendMessageWith_stored (found : state.known.find? (·.matches message) = some identity)
    (stored : holds message identity store = true) :
    appendMessageWith holds conversationId state message store =
      .ok ({ state with appended := state.appended ++ [(state.head, false)] }, store) := by
  rw [appendMessageWith, found]
  dsimp only
  rw [bind_eq rfl, bind_eq (require_holds stored)]
  rfl

theorem appendMessageWith_reused (found : state.known.find? (·.matches message) = some identity)
    (stored : holds message identity store = false) :
    appendMessageWith holds conversationId state message store =
      .error (.store ("message id or runtime event reused with different content: " ++
        message.messageId)) := by
  rw [appendMessageWith, found]
  dsimp only
  rw [bind_eq rfl]
  refine bind_error ?_
  simp [require, stored]

theorem appendMessageWith_existing (found : state.known.find? (·.matches message) = none)
    (existing : store.checkpointByDigest conversationId (chainedDigest state.parentDigest [message])
      ≠ none) :
    appendMessageWith holds conversationId state message store =
      .error (.store
        "active append would reuse an existing checkpoint instead of creating a child") := by
  rw [appendMessageWith, found]
  dsimp only
  rw [bind_eq rfl]
  refine bind_error ?_
  simp only [require, existing, if_false]

theorem appendMessageWith_new (found : state.known.find? (·.matches message) = none)
    (existing : store.checkpointByDigest conversationId (chainedDigest state.parentDigest [message])
      = none) :
    appendMessageWith holds conversationId state message store =
      (insertCheckpoint conversationId state.head [message]
        (chainedDigest state.parentDigest [message]) store).map
        fun ended =>
          ({ known := state.known ++ [⟨message.messageId, message.runtimeEventId, some message⟩]
             parentDigest := chainedDigest state.parentDigest [message]
             head := ended.1
             appended := state.appended ++ [(ended.1, true)] }, ended.2) := by
  rw [appendMessageWith, found]
  dsimp only
  rw [bind_eq rfl, bind_eq (require_holds existing)]
  cases ran : insertCheckpoint conversationId state.head [message]
    (chainedDigest state.parentDigest [message]) store with
  | error error => rw [bind_error ran]; rfl
  | ok ended => rw [bind_eq ran]; rfl

theorem appendMessagesWith_single (holds : CanonicalMessage → ChainIdentity → Store D → Bool)
    {store : Store D}
    (message : CanonicalMessage)
    (owner : store.conversations conversationId = some ⟨some expected, some runId⟩)
    {digest : D} (below : checkpointDigest expected store = .ok (digest, store))
    (known : List ChainIdentity) :
    appendMessagesWith holds conversationId runId expected known [message] store =
      (do
        let state ← appendMessageWith holds conversationId ⟨known, digest, expected, []⟩ message
        if state.head = expected then pure state.appended
        else do
          updateHeads conversationId runId expected state.head "appending"
          pure state.appended) store := by
  have active : requireActiveHead conversationId runId expected store = .ok ((), store) := by
    rw [requireActiveHead, bind_eq rfl]
    exact require_holds (by simp [owner])
  rw [appendMessagesWith, if_neg (cons_ne_nil _ _), bind_eq active, bind_eq below]
  simp only [foldlM_cons, foldlM_nil, bind_pure]

end Message

/-! ### What one message does -/

section Step

/-- The store where the messages so far led to `head`, each a batch of its own. -/
def movedOn (conversationId : ConversationId) (runId : RunId) (expected head : CheckpointId)
    (store : Store D) : Store D :=
  if head = expected then store else advance conversationId runId head store

theorem movedOn_messages : (movedOn conversationId runId expected head store).messages =
    store.messages := by
  unfold movedOn
  split <;> rfl

theorem movedOn_checkpoints : (movedOn conversationId runId expected head store).checkpoints =
    store.checkpoints := by
  unfold movedOn
  split <;> rfl

theorem movedOn_commutes (conversationId : ConversationId) (runId : RunId)
    (expected head parent : CheckpointId) (additions : List CanonicalMessage) (digest : D) :
    Commutes (movedOn conversationId runId expected head)
      (insertCheckpoint conversationId parent additions digest) := by
  intro store
  unfold movedOn
  by_cases unmoved : head = expected
  · simp only [unmoved, if_true]
    cases insertCheckpoint conversationId parent additions digest store <;> rfl
  · simp only [unmoved, if_false]
    exact insertCheckpoint_commutes head parent additions digest store

theorem movedOn_owner (owner : store.conversations conversationId = some ⟨some expected,
    some runId⟩) :
    (movedOn conversationId runId expected head store).conversations conversationId =
    some ⟨some head, some runId⟩ := by
  unfold movedOn
  split
  · rename_i unmoved
    rw [owner, unmoved]
  · simp [advance, updateRun, updateConversation, owner]

theorem movedOn_advance (next : CheckpointId) (grown : next ≠ expected) :
    advance conversationId runId next (movedOn conversationId runId expected head store) =
      movedOn conversationId runId expected next store := by
  unfold movedOn
  rw [if_neg grown]
  split
  · rfl
  · exact advance_advance head next

/-- The identity without the message that a batch keeps beside it. -/
def bareIdentity (identity : ChainIdentity) : ChainIdentity := { identity with body := none }

theorem chainIdentities_body {identity : ChainIdentity}
    (listed : identity ∈ store.chainIdentities conversationId expected) : identity.body = none := by
  unfold chainIdentities at listed
  split at listed
  · cases listed
  · split at listed
    · obtain ⟨_, -, rfl⟩ := mem_map.mp listed
      rfl
    · cases listed

theorem insertedOf_subset {done : List CanonicalMessage} {appended : List (CheckpointId × Bool)} :
    insertedOf done appended ⊆ done := by
  intro message listed
  obtain ⟨⟨own, place, flag⟩, zipped, kept⟩ := mem_filterMap.mp listed
  cases flag with
  | false => cases kept
  | true =>
    obtain rfl := Option.some.inj kept
    exact (of_mem_zip zipped).1

/-- What holds between two messages of a batch that began with all that its conversation has
stored. -/
structure Halfway (store between : Store D) (conversationId : ConversationId) (runId : RunId)
    (expected : CheckpointId)
    (done : List CanonicalMessage) (state : AppendState D) : Prop where
  wellFormed : store.WellFormed
  owner : store.conversations conversationId = some ⟨some expected, some runId⟩
  known : ∃ row ∈ store.checkpoints, row.checkpointId = expected
  loop : AppendPath store between conversationId expected
    (store.chainIdentities conversationId expected) done state
  sent : ∀ message ∈ done, message.payload = message

namespace Halfway

variable {done : List CanonicalMessage} {state : AppendState D}

theorem owned (halfway : Halfway store between conversationId runId expected done state) :
    between.conversations conversationId = some ⟨some expected, some runId⟩ := by
  rw [halfway.loop.conversations, halfway.owner]

theorem between_wellFormed (halfway :
    Halfway store between conversationId runId expected done state) :
    between.WellFormed := wellFormed_writesMany halfway.wellFormed halfway.loop.writes

theorem identities (halfway : Halfway store between conversationId runId expected done state) :
    (movedOn conversationId runId expected state.head between).chainIdentities conversationId
      state.head =
      state.known.map bareIdentity := by
  have read (store : Store D) (wellFormed : store.WellFormed) {row : CheckpointRow D}
    (member : row ∈ store.checkpoints)
      (home : row.conversationId = conversationId) :
      store.chainIdentities conversationId row.checkpointId =
      (store.loadCheckpointMessages row.checkpointId).map fun message =>
        ⟨message.messageId, message.runtimeEventId, none⟩ := by
    simp only [chainIdentities, checkpoint?_of_mem wellFormed member, home, if_true]
  obtain ⟨row, member, named, home, -⟩ := halfway.loop.top
  obtain ⟨base, baseMember, baseNamed⟩ := halfway.known
  have moved : (movedOn conversationId runId expected state.head between).chainIdentities
      conversationId state.head =
      between.chainIdentities conversationId state.head := by
    unfold movedOn
    split <;> rfl
  have own := read between halfway.between_wellFormed member home
  have first := read store halfway.wellFormed baseMember
    (expected_home halfway.wellFormed halfway.owner baseMember baseNamed)
  rw [named] at own
  rw [baseNamed] at first
  rw [moved, own, halfway.loop.chain, halfway.loop.identities, first]
  simp [bareIdentity, Function.comp_def]

/-- Under an identity of the batch there is stored what is stored under it without the message. -/
theorem storedText_bare (halfway : Halfway store between conversationId runId expected done state)
    (reads : ∀ earlier ∈ done, RereadsAs reread (store.chainIdentities conversationId expected)
      earlier message)
    {identity : ChainIdentity} (found : state.known.find? (·.matches message) = some identity) :
    storedText reread conversationId message (bareIdentity identity)
        (movedOn conversationId runId expected state.head between) =
      storedText reread conversationId message identity between := by
  have matched : identity.matches message = true := by simpa using find?_some found
  simp only [storedText, bareIdentity, message?, movedOn_messages]
  rw [halfway.loop.identities, find?_append] at found
  cases old : (store.chainIdentities conversationId expected).find? (·.matches message) with
  | some first =>
    rw [old] at found
    obtain rfl : first = identity := Option.some.inj found
    have body : first.body = none := chainIdentities_body (mem_of_find?_eq_some old)
    simp only [body]
    rfl
  | none =>
    rw [old, Option.none_or] at found
    have unknown : (store.chainIdentities conversationId expected).any (·.matches message) =
      false := by
      simpa [any_eq_false] using find?_eq_none.mp old
    obtain ⟨inserted, insertedListed, rfl⟩ := mem_map.mp (mem_of_find?_eq_some found)
    obtain ⟨row, member, named, home, -⟩ := halfway.loop.top
    have early : inserted ∈ done := insertedOf_subset insertedListed
    have onChain : inserted ∈ between.loadCheckpointMessages row.checkpointId := by
      rw [named, halfway.loop.chain]
      exact mem_append_right _ (mem_map.mpr ⟨inserted, insertedListed, halfway.sent inserted early⟩)
    have stored := load_stored halfway.between_wellFormed member onChain
    rw [home] at stored
    have same : (between.message? conversationId message.messageId).map (·.reread reread) =
      some message ↔
        inserted = message := by
      constructor
      · intro read
        obtain ⟨other, under, rfl⟩ := Option.map_eq_some_iff.mp read
        -- the table has one row under an id, and one under a runtime event
        have blocked : (MessageRow.mk conversationId inserted).blocks conversationId other =
          true := by
          change (ChainIdentity.mk inserted.messageId inserted.runtimeEventId
            (some inserted)).matches other = true at matched
          simpa [MessageRow.blocks, ChainIdentity.matches] using matched
        have is : inserted = other := congrArg MessageRow.message
          (halfway.between_wellFormed.chained.rows_eq (mem_of_message? stored)
            (mem_of_message? under) blocked)
        exact (reads inserted early (by rw [is]; rfl) unknown).mp (by rw [is])
      · intro is
        rw [← is, stored]
        exact congrArg some ((reads inserted early (by rw [is]) unknown).mpr is |>.trans is.symm)
    exact decide_eq_decide.mpr same

theorem checkpointByDigest_movedOn (digest : D) :
    (movedOn conversationId runId expected head store).checkpointByDigest conversationId digest =
      store.checkpointByDigest conversationId digest := by
  simp only [checkpointByDigest, movedOn_checkpoints]

theorem call (halfway : Halfway store between conversationId runId expected done state)
    (message : CanonicalMessage) :
    appendOneMessageOnce reread conversationId runId state.head message
        (movedOn conversationId runId expected state.head between) =
      (do
        let appended ← (do
          let ended ← appendMessageReading reread conversationId
            ⟨state.known.map bareIdentity, state.parentDigest, state.head, []⟩ message
          if ended.head = state.head then pure ended.appended
          else do
            updateHeads conversationId runId state.head ended.head "appending"
            pure ended.appended)
        orFail appended.getLast? (.store "one message appended"))
        (movedOn conversationId runId expected state.head between) := by
  have below : checkpointDigest state.head
    (movedOn conversationId runId expected state.head between) =
      .ok (state.parentDigest, movedOn conversationId runId expected state.head between) := by
    obtain ⟨top, topMember, topNamed, -, topDigest⟩ := halfway.loop.top
    have found : (movedOn conversationId runId expected state.head between).checkpoint? state.head =
      some top := by
      rw [checkpoint?, movedOn_checkpoints, ← topNamed]
      exact checkpoint?_of_mem halfway.between_wellFormed topMember
    rw [checkpointDigest, bind_eq rfl]
    simp only [found, ← topDigest]
    rfl
  have single := appendMessagesWith_single (storedText reread conversationId)
    message (movedOn_owner halfway.owned) below
    (state.known.map bareIdentity)
  rw [appendOneMessageOnce, bind_eq rfl]
  simp only [halfway.identities, appendMessagesReading]
  simp only [bind, StateT.bind] at single ⊢
  rw [single]

/-- What a message does on its own where the messages before it led. -/
structure Accords (reread : MessageContent → MessageContent) (conversationId : ConversationId)
    (runId : RunId) (expected : CheckpointId) (state : AppendState D)
    (message : CanonicalMessage) (between : Store D) : Prop where
  fails : ∀ error, appendMessageReading reread conversationId state message between = .error error →
    appendOneMessageOnce reread conversationId runId state.head message
      (movedOn conversationId runId expected state.head between) = .error error
  moves : ∀ next later, appendMessageReading reread conversationId state message between =
    .ok (next, later) →
    ∃ inserted, next.appended = state.appended ++ [(next.head, inserted)] ∧
      appendOneMessageOnce reread conversationId runId state.head message
        (movedOn conversationId runId expected state.head between) =
        .ok ((next.head, inserted), movedOn conversationId runId expected next.head later)

theorem accords_error (halfway : Halfway store between conversationId runId expected done state)
    {error : Error}
    (batch : appendMessageReading reread conversationId state message between = .error error)
    (own : appendMessageReading reread conversationId ⟨state.known.map bareIdentity,
      state.parentDigest, state.head, []⟩ message
      (movedOn conversationId runId expected state.head between) = .error error) :
    Accords reread conversationId runId expected state message between := by
  refine ⟨fun other failed => ?_, fun next later ran => ?_⟩
  · obtain rfl := Except.error.inj (batch.symm.trans failed)
    rw [halfway.call]
    exact bind_error (bind_error own)
  · rw [batch] at ran
    cases ran

theorem accords_some (halfway : Halfway store between conversationId runId expected done state)
    {identity : ChainIdentity}
    (reads : ∀ earlier ∈ done, RereadsAs reread (store.chainIdentities conversationId expected)
      earlier message)
    (found : state.known.find? (·.matches message) = some identity) :
    Accords reread conversationId runId expected state message between := by
  have search : (state.known.map bareIdentity).find? (·.matches message) =
    some (bareIdentity identity) := by
    rw [find?_map]
    exact congrArg (Option.map bareIdentity) found
  have bare := halfway.storedText_bare reads found
  cases stored : storedText reread conversationId message identity between with
  | false =>
    exact halfway.accords_error (appendMessageWith_reused state between found stored)
      (appendMessageWith_reused _ _ search (bare.trans stored))
  | true =>
    have batch : appendMessageReading reread conversationId state message between = _ :=
      appendMessageWith_stored state between found stored
    refine ⟨fun error failed => ?_, fun next later ran => ?_⟩
    · rw [batch] at failed
      cases failed
    · obtain ⟨rfl, rfl⟩ := Prod.mk.inj (Except.ok.inj (batch.symm.trans ran))
      refine ⟨false, rfl, ?_⟩
      rw [halfway.call]
      simp only [bind_assoc]
      rw [bind_eq (appendMessageWith_stored _ _ search (bare.trans stored)), if_pos rfl]
      rfl

theorem accords_none (halfway : Halfway store between conversationId runId expected done state)
    (found : state.known.find? (·.matches message) = none) :
    Accords reread conversationId runId expected state message between := by
  have search : (state.known.map bareIdentity).find? (·.matches message) = none := by
    rw [find?_map]
    exact congrArg (Option.map bareIdentity) found
  by_cases existing : between.checkpointByDigest conversationId (chainedDigest state.parentDigest
    [message]) = none
  case neg =>
    refine halfway.accords_error (appendMessageWith_existing state between found existing)
      (appendMessageWith_existing _ _ search ?_)
    rw [checkpointByDigest_movedOn]
    exact existing
  have batch : appendMessageReading reread conversationId state message between = _ :=
    appendMessageWith_new state between found existing
  have own : appendMessageReading reread conversationId
      ⟨state.known.map bareIdentity, state.parentDigest, state.head, []⟩ message
      (movedOn conversationId runId expected state.head between) = _ :=
    appendMessageWith_new _ _ search ((checkpointByDigest_movedOn _).trans existing)
  dsimp only at own
  rw [movedOn_commutes conversationId runId expected state.head state.head [message]
    _ between] at own
  cases ran : insertCheckpoint conversationId state.head [message]
    (chainedDigest state.parentDigest [message]) between with
  | error error =>
    rw [ran] at batch own
    exact halfway.accords_error batch own
  | ok ended =>
    obtain ⟨last, later⟩ := ended
    rw [ran] at batch own
    refine ⟨fun other failed => ?_, fun next after done => ?_⟩
    · rw [batch] at failed
      cases failed
    · obtain ⟨rfl, rfl⟩ := Prod.mk.inj (Except.ok.inj (batch.symm.trans done))
      refine ⟨true, rfl, ?_⟩
      obtain ⟨top, topMember, topNamed, topHome, topDigest⟩ := halfway.loop.top
      rw [← topHome, ← topNamed, ← topDigest] at ran
      have inserted := insertCheckpoint_ok topMember ran
      -- the new checkpoint has an id of its own
      have fresh : last ≠ state.head := by
        rintro rfl
        have bounded := halfway.between_wellFormed.chained.bounded top topMember
        rw [topNamed, inserted.named] at bounded
        exact absurd bounded (Nat.lt_irrefl _)
      have grown : last ≠ expected := by
        rintro rfl
        obtain ⟨base, baseMember, baseNamed⟩ := halfway.known
        have bounded := halfway.between_wellFormed.chained.bounded base
          ((writesMany_extends halfway.loop.writes).checkpoints.subset baseMember)
        rw [baseNamed, inserted.named] at bounded
        exact absurd bounded (Nat.lt_irrefl _)
      have kept : later.conversations conversationId = some ⟨some expected, some runId⟩ := by
        rw [inserted.conversations, halfway.owned]
      have heads : updateHeads conversationId runId state.head last "appending"
          (movedOn conversationId runId expected state.head later) =
          .ok ((), movedOn conversationId runId expected last later) := by
        rw [updateHeads, bind_eq rfl, bind_eq (require_holds (movedOn_owner kept)),
          ← movedOn_advance last grown]
        rfl
      rw [halfway.call]
      simp only [bind_assoc]
      rw [bind_eq own, if_neg fresh]
      simp only [bind_assoc]
      rw [bind_eq heads]
      rfl

/-- **A message does on its own what it does in the batch.** -/
theorem accords (halfway : Halfway store between conversationId runId expected done state)
    (message : CanonicalMessage)
    (reads : ∀ earlier ∈ done, RereadsAs reread (store.chainIdentities conversationId expected)
      earlier message) :
    Accords reread conversationId runId expected state message between := by
  cases found : state.known.find? (·.matches message) with
  | some identity => exact halfway.accords_some reads found
  | none => exact halfway.accords_none found

end Halfway

end Step

/-! ### A list of messages -/

section Batch

variable {done messages : List CanonicalMessage} {state : AppendState D}

theorem Halfway.rest (halfway : Halfway store between conversationId runId expected done state)
    (sent : ∀ message ∈ messages, message.payload = message)
    (reads : Rereads reread (store.chainIdentities conversationId expected) (done ++ messages)) :
    (∀ error, messages.foldlM (appendMessageReading reread conversationId) state between =
      .error error →
      appendOneByOne reread conversationId runId state.head messages
        (movedOn conversationId runId expected state.head between) = .error error) ∧
    ∀ last later, messages.foldlM (appendMessageReading reread conversationId) state between =
      .ok (last, later) →
      ∃ others, last.appended = state.appended ++ others ∧
        appendOneByOne reread conversationId runId state.head messages
          (movedOn conversationId runId expected state.head between) =
          .ok (others, movedOn conversationId runId expected last.head later) := by
  induction messages generalizing done state between with
  | nil =>
    refine ⟨fun error failed => ?_, fun last later ran => ?_⟩
    · cases failed
    · obtain ⟨rfl, rfl⟩ := pure_ok.mp ran
      exact ⟨[], (append_nil _).symm, rfl⟩
  | cons message rest ih =>
    have accords := halfway.accords message fun earlier listed =>
      (pairwise_append.mp reads).2.2 earlier listed message mem_cons_self
    cases step : appendMessageReading reread conversationId state message between with
    | error reason =>
      refine ⟨fun error failed => ?_, fun last later ran => ?_⟩
      · rw [foldlM_cons, bind_error step] at failed
        obtain rfl := Except.error.inj failed
        rw [appendOneByOne, bind_error (accords.fails _ step)]
      · rw [foldlM_cons, bind_error step] at ran
        cases ran
    | ok ended =>
      obtain ⟨next, further⟩ := ended
      obtain ⟨inserted, appended, own⟩ := accords.moves next further step
      have halfway' : Halfway store further conversationId runId expected (done ++ [message])
        next := by
        refine ⟨halfway.wellFormed, halfway.owner, halfway.known,
          appendMessageWith_path halfway.wellFormed halfway.loop step, fun other listed => ?_⟩
        rcases mem_append.mp listed with early | late
        · exact halfway.sent other early
        · exact sent other (mem_singleton.mp late ▸ mem_cons_self)
      obtain ⟨fails, moves⟩ := ih halfway' (fun other listed => sent other
        (mem_cons_of_mem _ listed))
        (by simpa [Rereads] using reads)
      refine ⟨fun error failed => ?_, fun last later ran => ?_⟩
      · rw [foldlM_cons, bind_eq step] at failed
        rw [appendOneByOne, bind_eq own, bind_error (fails error failed)]
      · rw [foldlM_cons, bind_eq step] at ran
        obtain ⟨others, more, alone⟩ := moves last later ran
        refine ⟨(next.head, inserted) :: others, ?_, ?_⟩
        · rw [more, appended, append_assoc]
          rfl
        · rw [appendOneByOne, bind_eq own, bind_eq alone]
          rfl

/-- **Messages one by one are the batch**: the same results, the same store, and the same
failures. -/
theorem appendOneByOne_eq (wellFormed : store.WellFormed) (sent : ∀ message ∈ messages,
    message.payload = message)
    (reads : Rereads reread (store.chainIdentities conversationId expected) messages) :
    appendOneByOne reread conversationId runId expected messages store =
      appendMessagesReading reread conversationId runId expected
        (store.chainIdentities conversationId expected)
        messages store := by
  cases messages with
  | nil => rfl
  | cons message rest =>
    rw [appendMessagesReading, appendMessagesWith, if_neg (cons_ne_nil _ _)]
    cases checked : requireActiveHead conversationId runId expected store with
    | error error =>
      rw [bind_error checked, appendOneByOne, appendOneMessageOnce]
      refine bind_error ?_
      rw [bind_eq rfl, appendMessagesReading, appendMessagesWith, if_neg (cons_ne_nil _ _)]
      exact bind_error (bind_error checked)
    | ok ended =>
      obtain ⟨-, same⟩ := requireActiveHead_ok checked
      obtain ⟨owner, -⟩ := requireActiveHead_ok checked
      rw [bind_eq checked, ← same]
      cases read : checkpointDigest expected store with
      | error error =>
        rw [bind_error read, appendOneByOne, appendOneMessageOnce]
        refine bind_error ?_
        rw [bind_eq rfl, appendMessagesReading, appendMessagesWith, if_neg (cons_ne_nil _ _)]
        refine bind_error ?_
        rw [bind_eq checked, ← same]
        exact bind_error read
      | ok found =>
        obtain ⟨digest, last⟩ := found
        obtain ⟨⟨above, member, named, rfl⟩, rfl⟩ := checkpointDigest_ok read
        have start := AppendPath.start wellFormed (store.chainIdentities conversationId expected)
          owner member named
        have halfway : Halfway store store conversationId runId expected []
            ⟨store.chainIdentities conversationId expected, above.stateDigest, expected, []⟩ :=
          ⟨wellFormed, owner, ⟨above, member, named⟩, start,
            fun _ listed => absurd listed not_mem_nil⟩
        obtain ⟨fails, moves⟩ := halfway.rest sent reads
        have unmoved : movedOn conversationId runId expected expected store = store := if_pos rfl
        dsimp only at fails moves
        rw [unmoved] at fails moves
        rw [bind_eq read]
        cases looped : (message :: rest).foldlM (appendMessageReading reread conversationId)
            ⟨store.chainIdentities conversationId expected, above.stateDigest, expected, []⟩
              store with
        | error error => rw [bind_error looped, fails error looped]
        | ok ended =>
          obtain ⟨final, between⟩ := ended
          obtain ⟨others, appended, alone⟩ := moves final between looped
          rw [nil_append] at appended
          rw [alone, bind_eq looped, ← appended]
          unfold movedOn
          have loop : AppendPath store between conversationId expected
            (store.chainIdentities conversationId expected)
              (message :: rest) final :=
            foldlM_relates (motive := fun done state between =>
              AppendPath store between conversationId expected
              (store.chainIdentities conversationId expected) done state) looped start
              fun done item acc between next later _ loop ran =>
                appendMessageWith_path wellFormed loop ran
          split
          · rfl
          · have kept : between.conversations conversationId = some ⟨some expected,
              some runId⟩ := by
              rw [loop.conversations, owner]
            rw [updateHeads]
            simp only [bind_assoc]
            rw [bind_eq rfl, bind_eq (require_holds kept)]
            rfl

variable (reread conversationId runId expected) in
/-- What a batch leaves is what its messages leave one by one, or nothing where one of them
fails. -/
def BatchIsOneByOne (messages : List CanonicalMessage) (store : Store D) : Prop :=
  (∀ appended after, appendOneByOne reread conversationId runId expected messages store =
    .ok (appended, after) →
    (appendMessagesReading reread conversationId runId expected
      (store.chainIdentities conversationId expected)
      messages).execute store = (.ok appended, after)) ∧
  ∀ error, appendOneByOne reread conversationId runId expected messages store = .error error →
    (appendMessagesReading reread conversationId runId expected
      (store.chainIdentities conversationId expected)
      messages).execute store = (.error error, store)

end Batch

/-! ### Batches that repeat themselves -/

/-- A message of a batch. -/
def sampleNotice : CanonicalMessage :=
  { messageId := "notice", role := .user, origin := .runtime
    content := .parts [.text "A task is done."], runtimeEventId := some "task" }

/-- A call whose argument is a float. -/
def sampleMeasured (bits : UInt64) : CanonicalMessage :=
  { messageId := "measured", role := .assistant, origin := .assistant
    content := .assistant "" "" (some ⟨"round"⟩) none
      [⟨0, "call", "Measure", .object [("x", .number (.float bits))]⟩]
    runtimeEventId := none }

/-- 51.248178375505404, which is written with these digits. -/
def sampleBits : UInt64 := 0x40499fc44f1b2f60

/-- 51.24817837550541, which is what these digits are read back as. It is read back as itself. -/
def sampleReadBits : UInt64 := 0x40499fc44f1b2f61

/-- What the samples' contents are read back as. -/
def sampleReread (content : MessageContent) : MessageContent :=
  if content = (sampleMeasured sampleBits).content then
    (sampleMeasured sampleReadBits).content else content

/-- A conversation that a run has claimed. -/
def sampleOwned : Store HistoryDigest :=
  (Operation.claimRun (samplePrepared "first") 0).apply Store.empty

theorem sampleOwned_wellFormed : sampleOwned.WellFormed :=
  wellFormed_of_reachable ⟨Store.empty, [.claimRun (samplePrepared "first") 0], rfl, .single rfl⟩

example : (appendOneByOne sampleReread ⟨"conversation"⟩ ⟨"first"⟩ ⟨1⟩
      [sampleNotice, sampleMeasured sampleReadBits, sampleNotice, sampleMeasured sampleReadBits]
      sampleOwned).map (·.1) =
    .ok [(⟨2⟩, true), (⟨3⟩, true), (⟨3⟩, false), (⟨3⟩, false)] := by decide +kernel

end Store

end Byok
