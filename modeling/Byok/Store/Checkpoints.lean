/-
**Writing checkpoints.** `server/src/store/checkpoints.rs`: the four ways a checkpoint comes to be,
all through `insert_checkpoint_tx`.

* `importCheckpoint` — the history that a client sends back, matched against the stored one
  (`extendsPrefix`) and put below the current checkpoint or below the root.
* `appendCheckpoint`, `appendMessagesOnce` — messages below the head of the active run.
* `replaceCheckpoint` — a new history below the root.
-/

import Byok.Store.Conversations

namespace Byok

open Library Transaction

variable {D : Type} [DecidableEq D] [ChainHash D]

/-! ### Identities on a chain -/

/-- `ChainIdentity`: a message on the chain, with its body when this batch put it there. -/
structure ChainIdentity where
  messageId : String
  runtimeEventId : Option String
  body : Option CanonicalMessage
deriving DecidableEq, Repr

def ChainIdentity.matches (known : ChainIdentity) (message : CanonicalMessage) : Bool :=
  known.messageId = message.messageId ||
    message.runtimeEventId.isSome && known.runtimeEventId = message.runtimeEventId

/-- `extends_prefix`: the first messages of `incoming` have the content of `stored`. -/
def extendsPrefix (stored incoming : List CanonicalMessage) : Bool :=
  stored.length ≤ incoming.length &&
    (stored.zip incoming).all fun (stored, wire) =>
      stored.role = wire.role && stored.origin = wire.origin && stored.content = wire.content &&
        stored.runtimeEventId = wire.runtimeEventId

namespace Store

/-- `chain_identities`, read outside the write lock. The query orders by checkpoint id, which is
the order of the path. -/
def chainIdentities (store : Store D) (conversationId : ConversationId)
    (checkpointId : CheckpointId) : List ChainIdentity :=
  match store.checkpoint? checkpointId with
  | none => []
  | some row =>
    if row.conversationId = conversationId then
      (store.loadCheckpointMessages checkpointId).map fun message =>
        ⟨message.messageId, message.runtimeEventId, none⟩
    else []

/-- `checkpoint_digest_tx`. -/
def checkpointDigest (checkpointId : CheckpointId) : StoreTransaction D D := do
  let row ← read (·.checkpoint? checkpointId)
  orFail (row.map (·.stateDigest))
    (.store ("checkpoint " ++ toString checkpointId.value ++
      " is missing while computing its parent digest"))

/-- `conversation_root_tx`: the first checkpoint of the conversation without a parent. -/
def conversationRoot (conversationId : ConversationId) : StoreTransaction D CheckpointId := do
  let root ← read fun store => store.checkpoints.find? fun row =>
    row.conversationId = conversationId && row.parentCheckpointId.isNone
  orFail (root.map (·.checkpointId))
    (.store ("conversation " ++ conversationId.value ++ " has no root checkpoint"))

/-- The loop of `insert_checkpoint_tx` over its additions. -/
def putMessages (conversationId : ConversationId) : List CanonicalMessage → StoreTransaction D Unit
  | [] => pure ()
  | message :: rest => do
      putMessage conversationId message
      putMessages conversationId rest

/-- `insert_checkpoint_tx`. -/
def insertCheckpoint (conversationId : ConversationId) (parent : CheckpointId)
    (additions : List CanonicalMessage) (digest : D) : StoreTransaction D CheckpointId := do
  putMessages conversationId additions
  insertCheckpointStatement conversationId (some parent) digest (additions.map (·.messageId))

/-- The conversation and the run are moved on to a checkpoint. -/
@[simps!]
def advance (conversationId : ConversationId) (runId : RunId) (checkpointId : CheckpointId)
    (store : Store D) : Store D :=
  updateRun runId (fun row => { row with headCheckpointId := checkpointId })
    (updateConversation conversationId
      (fun row => { row with currentCheckpointId := some checkpointId }) store)

/-- The two `UPDATE`s at the end of an append and of a replacement; the first one has to hit the
row that `expected` and `runId` name. `doing` is the word in the error. -/
def updateHeads (conversationId : ConversationId) (runId : RunId)
    (expected checkpointId : CheckpointId) (doing : String) : StoreTransaction D Unit := do
  let row ← read (·.conversations conversationId)
  require (row = some ⟨some expected, some runId⟩)
    (.store ("lost active ownership while " ++ doing ++ " checkpoint for run " ++ runId.value))
  write (advance conversationId runId checkpointId)

/-! ### The operations -/

/-- Where `import_checkpoint` puts a history, and what of it is new: below the current checkpoint
when it extends the stored history, below the root when it does not. -/
def importParent (conversationId : ConversationId) (current : CheckpointId)
    (messages : List CanonicalMessage) :
    StoreTransaction D (CheckpointId × List CanonicalMessage) := do
  let currentMessages ← read (·.loadCheckpointMessages current)
  if extendsPrefix currentMessages messages then
    pure (current, messages.drop currentMessages.length)
  else do
    let root ← conversationRoot conversationId
    pure (root, messages)

def importCheckpoint (conversationId : ConversationId) (messages : List CanonicalMessage) :
    StoreTransaction D CheckpointId := do
  let current ← ensureConversation conversationId
  let placed ← importParent conversationId current messages
  if placed.2 = [] ∧ placed.1 = current then
    pure current
  else do
    let parentDigest ← checkpointDigest placed.1
    let digest := chainedDigest parentDigest placed.2
    let existing ← read (·.checkpointByDigest conversationId digest)
    match existing with
    | some existing => pure existing
    | none => insertCheckpoint conversationId placed.1 placed.2 digest

/-- `append_checkpoint_with_digest_tx`. -/
def appendCheckpointWithDigest (conversationId : ConversationId) (runId : RunId)
    (expected : CheckpointId) (additions : List CanonicalMessage) (digest : D) :
    StoreTransaction D CheckpointId := do
  requireActiveHead conversationId runId expected
  let existing ← read (·.checkpointByDigest conversationId digest)
  require (existing = none)
    (.store "active append would reuse an existing checkpoint instead of creating a child")
  let checkpoint ← insertCheckpoint conversationId expected additions digest
  updateHeads conversationId runId expected checkpoint "appending"
  pure checkpoint

def appendCheckpointTx (conversationId : ConversationId) (runId : RunId) (expected : CheckpointId)
    (additions : List CanonicalMessage) : StoreTransaction D CheckpointId := do
  let parentDigest ← checkpointDigest expected
  appendCheckpointWithDigest conversationId runId expected additions
    (chainedDigest parentDigest additions)

def appendCheckpoint (conversationId : ConversationId) (runId : RunId) (expected : CheckpointId)
    (additions : List CanonicalMessage) : StoreTransaction D CheckpointId :=
  if additions = [] then pure expected
  else appendCheckpointTx conversationId runId expected additions

def replaceCheckpoint (conversationId : ConversationId) (runId : RunId) (expected : CheckpointId)
    (messages : List CanonicalMessage) : StoreTransaction D CheckpointId := do
  requireActiveHead conversationId runId expected
  let root ← conversationRoot conversationId
  let digest ← checkpointDigest root
  let checkpoint ← insertCheckpoint conversationId root messages (chainedDigest digest messages)
  updateHeads conversationId runId expected checkpoint "replacing"
  pure checkpoint

/-- The locals of the loop of `append_messages_once`. -/
structure AppendState (D : Type) where
  known : List ChainIdentity
  parentDigest : D
  head : CheckpointId
  appended : List (CheckpointId × Bool)

/-- What the store holds under the identity that `message` collides with, where the stored text is that of `message`
exactly when it is read back as `message`. -/
def storedUnder (conversationId : ConversationId) (message : CanonicalMessage)
    (identity : ChainIdentity) (store : Store D) : Bool :=
  match identity.body with
  | some stored => stored = message
  | none => store.message? conversationId message.messageId = some message

/-- The body of the loop of `append_messages_once`. `holds` tells whether a message is stored under
an identity. -/
def appendMessageWith (holds : CanonicalMessage → ChainIdentity → Store D → Bool)
    (conversationId : ConversationId) (state : AppendState D) (message : CanonicalMessage) :
    StoreTransaction D (AppendState D) :=
  match state.known.find? (·.matches message) with
  | some identity => do
      let stored ← read (holds message identity)
      require (stored = true)
        (.store ("message id or runtime event reused with different content: " ++
          message.messageId))
      pure { state with appended := state.appended ++ [(state.head, false)] }
  | none => do
      let digest := chainedDigest state.parentDigest [message]
      let existing ← read (·.checkpointByDigest conversationId digest)
      require (existing = none)
        (.store "active append would reuse an existing checkpoint instead of creating a child")
      let head ← insertCheckpoint conversationId state.head [message] digest
      pure
        { known := state.known ++ [⟨message.messageId, message.runtimeEventId, some message⟩]
          parentDigest := digest
          head
          appended := state.appended ++ [(head, true)] }

/-- `append_messages_once`. `known` is what `chain_identities` returned before the write lock was
taken. -/
def appendMessagesWith (holds : CanonicalMessage → ChainIdentity → Store D → Bool)
    (conversationId : ConversationId) (runId : RunId) (expected : CheckpointId)
    (known : List ChainIdentity) (messages : List CanonicalMessage) :
    StoreTransaction D (List (CheckpointId × Bool)) :=
  if messages = [] then pure []
  else do
    requireActiveHead conversationId runId expected
    let parentDigest ← checkpointDigest expected
    let state ← messages.foldlM (appendMessageWith holds conversationId)
      ⟨known, parentDigest, expected, []⟩
    if state.head = expected then pure state.appended
    else do
      updateHeads conversationId runId expected state.head "appending"
      pure state.appended

/-- The loop where every stored text is read back as the message that was written. -/
def appendMessageOnce (conversationId : ConversationId) (state : AppendState D)
    (message : CanonicalMessage) : StoreTransaction D (AppendState D) :=
  appendMessageWith (storedUnder conversationId) conversationId state message

/-- `append_messages_once`, where every stored text is read back as the message that was written. -/
def appendMessagesOnce (conversationId : ConversationId) (runId : RunId) (expected : CheckpointId)
    (known : List ChainIdentity) (messages : List CanonicalMessage) :
    StoreTransaction D (List (CheckpointId × Bool)) :=
  appendMessagesWith (storedUnder conversationId) conversationId runId expected known messages

end Store

end Byok
