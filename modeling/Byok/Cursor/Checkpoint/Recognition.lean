/-
**A history that the client sends back.**

Each turn the client returns the history it was given. `import_checkpoint` should find that it is
the stored one and add nothing to it. It does so for a history of messages; one with a tool round
never comes back as it was stored: the round was stored call by call under the id that the server
chose, and comes back in one piece under an id made of the blob's (`echo_recognised_iff`).
-/

import Byok.Cursor.Checkpoint.RoundTrip
import Byok.Store.Chain
import Byok.Store.Storable

namespace Byok

open Library Transaction Store List

/-! ### Histories that the server built -/

/-- A message outside tool rounds, as the server makes it: parts of the user, of a runtime event or
of a request context, and answers without calls. -/
def CanonicalMessage.FromServer (message : CanonicalMessage) : Prop :=
  match message.content with
  | .parts _ => (message.role = .system ∨ message.role = .user) ∧
      message.origin = originOfWire message.role message.messageId ∧
      message.runtimeEventId = stripPrefix message.messageId "runtime:"
  | .assistant _ _ group _ calls => message.role = .assistant ∧ message.origin = .assistant ∧
      message.runtimeEventId = none ∧ group = none ∧ calls = []
  | .toolResult _ => False

/-- The round ids that a run gives out. -/
inductive ServerRoundId : ToolRoundId → Prop
  | call (runId : RunId) (providerCallIndex : Nat) :
      ServerRoundId ⟨runId.value ++ ":round:" ++ toString providerCallIndex⟩
  | resume (runId : RunId) : ServerRoundId ⟨runId.value ++ ":round:resume"⟩

/-- A history that the server built: messages of its own, and calls with their results as
`commit_tool_result` stores them. -/
inductive ServerBuilt : List CanonicalMessage → Prop
  | nil : ServerBuilt []
  | message {message : CanonicalMessage} {rest : List CanonicalMessage}
      (fromServer : message.FromServer) (more : ServerBuilt rest) : ServerBuilt (message :: rest)
  | result {roundId : ToolRoundId} {assistant : ToolRoundAssistant} {completionSeq : Nat}
      {call : ToolRoundCallRow} {result : ToolResult} {rest : List CanonicalMessage}
      (round : ServerRoundId roundId) (more : ServerBuilt rest) :
      ServerBuilt (assistantPart roundId assistant completionSeq call ::
        resultMessage roundId call result :: rest)

theorem FromServer.shaped {message : CanonicalMessage} (fromServer : message.FromServer) :
    message.Shaped := by
  obtain ⟨messageId, role, origin, content, runtimeEventId⟩ := message
  cases content with
  | parts parts => exact ⟨fromServer.1, by simp⟩
  | assistant text thinking group replayState calls =>
    refine ⟨fromServer.1, fun _ _ _ _ same => ?_⟩
    cases same
    exact fromServer.2.2.2.2
  | toolResult result => exact fromServer.elim

theorem ServerBuilt.shaped {history : List CanonicalMessage} (built : ServerBuilt history) :
    ∀ message ∈ history, message.Shaped := by
  induction built with
  | nil => simp
  | message fromServer more ih =>
    exact forall_mem_cons.mpr ⟨FromServer.shaped fromServer, ih⟩
  | result round more ih =>
    refine forall_mem_cons.mpr ⟨⟨rfl, by simp [assistantPart]⟩, ?_⟩
    exact forall_mem_cons.mpr ⟨⟨rfl, by simp [resultMessage]⟩, ih⟩

theorem ServerRoundId.ne {roundId : ToolRoundId} (round : ServerRoundId roundId)
    (internalId : String) : roundId ≠ ⟨internalId ++ ":tool-round"⟩ := by
  intro same
  have ends : roundId.value.toList.getLast? = some 'd' := by
    rw [same]
    simp [String.toList_append]
  cases round with
  | call runId providerCallIndex =>
    have digits : (toString providerCallIndex).toList = Nat.toDigits 10 providerCallIndex :=
      Nat.toList_repr
    have some : Nat.toDigits 10 providerCallIndex ≠ [] := Nat.toDigits_ne_nil
    have digit := Nat.isDigit_of_mem_toDigits (by decide) (by decide) (getLast_mem some)
    rw [String.toList_append, digits, getLast?_append, getLast?_eq_some_getLast some,
      Option.some_or, Option.some.injEq] at ends
    rw [ends] at digit
    exact absurd digit (by decide)
  | resume runId =>
    have last : ":round:resume".toList.getLast? = some 'e' := by decide
    rw [String.toList_append, getLast?_append, last, Option.some_or] at ends
    exact absurd ends (by decide)

/-! ### Recognising a history -/

theorem extendsPrefix_cons (stored wire : CanonicalMessage) (rest others : List CanonicalMessage) :
    extendsPrefix (stored :: rest) (wire :: others) =
      ((stored.role = wire.role && stored.origin = wire.origin && stored.content = wire.content &&
        stored.runtimeEventId = wire.runtimeEventId) && extendsPrefix rest others) := by
  simp [extendsPrefix, Bool.and_left_comm]

theorem FromServer.echoed {message : CanonicalMessage} (fromServer : message.FromServer)
    (internalId : String) (rest others : List CanonicalMessage) :
    extendsPrefix (message :: rest) (echoed (projectMessage message) internalId :: others) =
      extendsPrefix rest others := by
  rw [extendsPrefix_cons]
  obtain ⟨messageId, role, origin, content, runtimeEventId⟩ := message
  cases content with
  | parts parts =>
    obtain ⟨-, sameOrigin, sameEvent⟩ := fromServer
    dsimp only at sameOrigin sameEvent
    simp [Byok.echoed, projectMessage, wireMessageId, echoedContent, ← sameOrigin, ← sameEvent]
  | assistant text thinking group replayState calls =>
    obtain ⟨sameRole, sameOrigin, sameEvent, rfl, rfl⟩ := fromServer
    dsimp only at sameRole sameOrigin sameEvent
    subst sameRole sameOrigin sameEvent
    simp [Byok.echoed, projectMessage, wireMessageId, echoedContent, originOfWire, stripPrefix,
      startsWith]
  | toolResult result => exact fromServer.elim

theorem FromServer.single {message : CanonicalMessage} (fromServer : message.FromServer) :
    toolRoundPart message = none := by
  unfold CanonicalMessage.FromServer at fromServer
  unfold toolRoundPart
  split
  · rename_i content
    simp [content] at fromServer
  · rfl

theorem transduce_head {round : OpenRound} {messages : List CanonicalMessage}
    {out : List ProjectedMessage} (done : projector.transduce (some round) messages = .ok out) :
    ∃ first rest text thinking replayState calls, out = first :: rest ∧
      first.content = .assistant text thinking replayState calls := by
  induction messages generalizing round with
  | nil =>
    rw [Transducer.transduce_nil] at done
    obtain ⟨rfl, -⟩ := ToolRoundScan.close_ok done
    exact ⟨_, _, _, _, _, _, rfl, rfl⟩
  | cons message rest ih =>
    rcases transduce_some_ok done with ⟨_, _, -, -, -, ran⟩ | ⟨_, _, _, _, _, -, -, -, ran⟩ |
      ⟨-, group, more, closed, ran, rfl⟩
    · exact ih ran
    · exact ih ran
    · obtain ⟨rfl, -⟩ := ToolRoundScan.close_ok closed
      exact ⟨_, _, _, _, _, _, rfl, rfl⟩

/-- **A history with a tool round is not recognised, one without is.** -/
theorem extendsPrefix_echo {history : List CanonicalMessage} (built : ServerBuilt history)
    {projected : List ProjectedMessage} (projects : projectMessages history = .ok projected)
    {internalIds : List String} (lengths : internalIds.length = projected.length)
    (others : List CanonicalMessage) :
    (extendsPrefix history (List.zipWith echoed projected internalIds ++ others) = true ↔
      ∀ message ∈ history, toolRoundPart message = none) ∧
    ((∀ message ∈ history, toolRoundPart message = none) →
      projected.length = history.length) := by
  rw [projectMessages_eq_transduce] at projects
  induction built generalizing projected internalIds with
  | nil =>
    cases projects
    simp [extendsPrefix]
  | @message message rest fromServer more ih =>
    rcases transduce_none_ok projects with ⟨-, projected, ran, rfl⟩ |
      ⟨groupId, text, thinking, replayState, toolCalls, scan, content, calls, -, -⟩
    · cases internalIds with
      | nil => cases lengths
      | cons internalId internalIds =>
        obtain ⟨same, counted⟩ := ih ran (Nat.succ.inj lengths)
        rw [zipWith_cons_cons, cons_append, FromServer.echoed fromServer, same,
          forall_mem_cons]
        refine ⟨by simp [FromServer.single fromServer], fun single => ?_⟩
        simp [counted single.2]
    · have single := FromServer.single fromServer
      rw [toolRoundPart_eq_some.mpr ⟨text, thinking, replayState, toolCalls, content, calls⟩]
        at single
      cases single
  | @result roundId assistant completionSeq call result rest round more ih =>
    have part : toolRoundPart (assistantPart roundId assistant completionSeq call) =
        some roundId := rfl
    have some : ¬ ∀ message ∈ assistantPart roundId assistant completionSeq call ::
        resultMessage roundId call result :: rest, toolRoundPart message = none := by
      intro single
      rw [single _ mem_cons_self] at part
      cases part
    refine ⟨iff_of_false ?_ some, fun single => absurd single some⟩
    rcases transduce_none_ok projects with ⟨single, -⟩ | ⟨_, _, _, _, _, _, -, -, -, ran⟩
    · rw [part] at single
      cases single
    · obtain ⟨first, behind, text, thinking, replayState, calls, rfl, content⟩ := transduce_head ran
      cases internalIds with
      | nil => cases lengths
      | cons internalId internalIds =>
        -- the id of the round is not the one that the part was stored with
        rw [zipWith_cons_cons, cons_append, extendsPrefix_cons]
        intro same
        simp only [Bool.and_eq_true, decide_eq_true_eq, assistantPart, echoed, content,
          echoedContent, MessageContent.assistant.injEq] at same
        obtain ⟨⟨⟨-, -, -, group, -⟩, -⟩, -⟩ := same
        split at group
        · cases group
        · exact round.ne internalId (Option.some.inj group)

/-! ### Importing -/

variable {D : Type} [DecidableEq D] [ChainHash D]

/-- No two histories share a digest. -/
structure CollisionFree (D : Type) [ChainHash D] : Prop where
  root : ∀ (parent : D) (additions : List CanonicalMessage),
    chainedDigest parent additions ≠ rootDigest
  chain : ∀ (parent other : D) (additions others : List CanonicalMessage),
    chainedDigest parent additions = chainedDigest other others →
      parent = other ∧ additions.map (·.payload) = others.map (·.payload)

theorem collisionFree_history : CollisionFree HistoryDigest := by
  refine ⟨fun parent additions same => ?_, fun parent other additions others same => ?_⟩
  · have steps := congrArg HistoryDigest.steps same
    simp [chainedDigest, rootDigest, ChainHash.chain, ChainHash.root] at steps
  · have steps := congrArg HistoryDigest.steps same
    simp only [chainedDigest, ChainHash.chain] at steps
    obtain ⟨before, last⟩ := append_inj' steps rfl
    obtain ⟨parentSteps⟩ := parent
    obtain ⟨otherSteps⟩ := other
    exact ⟨by rw [show parentSteps = otherSteps from before], (List.cons.inj last).1⟩

section Import

variable {store : Store D} {conversationId : ConversationId} {head : CheckpointId}

theorem ensureConversation_known
    (current : (store.conversations conversationId).bind (·.currentCheckpointId) = some head) :
    ensureConversation conversationId store = .ok (head, store) := by
  obtain ⟨row, found, -⟩ := Option.bind_eq_some_iff.mp current
  have present : insertOrIgnoreConversation conversationId store = store := by
    rw [insertOrIgnoreConversation, found]
  rw [ensureConversation, bind_eq rfl, present, bind_eq rfl]
  simp only [current]
  rfl

theorem checkpointDigest_known (wellFormed : store.WellFormed) {row : CheckpointRow D}
    (member : row ∈ store.checkpoints) :
    checkpointDigest row.checkpointId store = .ok (row.stateDigest, store) := by
  rw [checkpointDigest, bind_eq rfl]
  simp only [checkpoint?_of_mem wellFormed member]
  rfl

theorem importCheckpoint_extends (wellFormed : store.WellFormed) {row : CheckpointRow D}
    (member : row ∈ store.checkpoints) (named : row.checkpointId = head)
    (current : (store.conversations conversationId).bind (·.currentCheckpointId) = some head)
    {incoming new : List CanonicalMessage}
    (extends' : extendsPrefix (store.loadCheckpointMessages head) incoming = true)
    (rest : incoming.drop (store.loadCheckpointMessages head).length = new) :
    importCheckpoint conversationId incoming store =
      if new = [] then .ok (head, store)
      else match store.checkpointByDigest conversationId (chainedDigest row.stateDigest new) with
        | some existing => .ok (existing, store)
        | none => insertCheckpoint conversationId head new (chainedDigest row.stateDigest new)
            store := by
  have placed : importParent conversationId head incoming store = .ok ((head, new), store) := by
    rw [importParent, bind_eq rfl, if_pos extends', rest]
    rfl
  rw [importCheckpoint, bind_eq (ensureConversation_known current), bind_eq placed]
  by_cases empty : new = []
  · simp only [empty, and_self, if_true]
    rfl
  · have digest := checkpointDigest_known wellFormed member
    rw [named] at digest
    simp only [empty, false_and, if_false]
    rw [bind_eq digest, bind_eq rfl]
    dsimp only
    cases store.checkpointByDigest conversationId (chainedDigest row.stateDigest new) <;> rfl

theorem child_of_digest (secure : CollisionFree D) (wellFormed : store.WellFormed)
    {above row : CheckpointRow D} (aboveMember : above ∈ store.checkpoints)
    (member : row ∈ store.checkpoints) (home : row.conversationId = above.conversationId)
    {additions : List CanonicalMessage}
    (digest : row.stateDigest = chainedDigest above.stateDigest additions) :
    row.parentCheckpointId = some above.checkpointId ∧
      (store.additions row).map (·.payload) = additions.map (·.payload) := by
  cases link : row.parentCheckpointId with
  | none =>
    rw [(wellFormed.chained.rooted row member link).1] at digest
    exact absurd digest.symm (secure.root _ _)
  | some parent =>
    obtain ⟨other, otherMember, rfl, otherHome, -, linked⟩ :=
      wellFormed.chained.linked row member parent link
    obtain ⟨sameDigest, sameAdditions⟩ := secure.chain _ _ _ _ (linked.symm.trans digest)
    rw [digest_injective wellFormed.chained otherMember aboveMember (otherHome.trans home) sameDigest]
    exact ⟨rfl, sameAdditions⟩

/-- The import finds the stored history and adds nothing. -/
def Recognised (store : Store D) (conversationId : ConversationId) (head : CheckpointId)
    (incoming : List CanonicalMessage) : Prop :=
  ∃ after, importCheckpoint conversationId incoming store = .ok (head, after) ∧
    after.checkpoints = store.checkpoints

/-- The import adds one checkpoint, and its additions are `new`. -/
def AddsOne (store : Store D) (conversationId : ConversationId)
    (incoming new : List CanonicalMessage) : Prop :=
  ∃ checkpointId after row, importCheckpoint conversationId incoming store =
      .ok (checkpointId, after) ∧ after.checkpoints = store.checkpoints ++ [row] ∧
    row.checkpointId = checkpointId ∧ after.additions row = new.map (·.payload)

/-- No checkpoint below `head` adds `new`. -/
def Unheld (store : Store D) (head : CheckpointId) (new : List CanonicalMessage) : Prop :=
  ∀ row ∈ store.checkpoints, row.parentCheckpointId = some head →
    (store.additions row).map (·.payload) ≠ new.map (·.payload)

theorem ServerBuilt.payload {history : List CanonicalMessage} (built : ServerBuilt history) :
    history.map (·.payload) = history := by
  induction built with
  | nil => rfl
  | @message message rest fromServer more ih =>
    rw [map_cons, ih]
    obtain ⟨messageId, role, origin, content, runtimeEventId⟩ := message
    cases content with
    | parts parts => rfl
    | assistant => rfl
    | toolResult result => exact fromServer.elim
  | result round more ih => rw [map_cons, map_cons, ih]; rfl

theorem payload_echoed (projected : List ProjectedMessage) (internalIds : List String) :
    (List.zipWith echoed projected internalIds).map (·.payload) =
      List.zipWith echoed projected internalIds := by
  rw [map_zipWith]
  congr 1
  funext message internalId
  obtain ⟨messageId, role, content⟩ := message
  cases content <;> rfl

theorem extendsPrefix_self (history : List CanonicalMessage) : extendsPrefix history history = true := by
  induction history with
  | nil => rfl
  | cons message rest ih => simp [extendsPrefix_cons, ih]

theorem not_recognised (secure : CollisionFree D) (wellFormed : store.WellFormed)
    (current : (store.conversations conversationId).bind (·.currentCheckpointId) = some head)
    (built : ServerBuilt (store.loadCheckpointMessages head)) {projected : List ProjectedMessage}
    {internalIds : List String}
    (differs : extendsPrefix (store.loadCheckpointMessages head)
      (List.zipWith echoed projected internalIds) = false) :
    ¬ Recognised store conversationId head (List.zipWith echoed projected internalIds) := by
  rintro ⟨after, ran, same⟩
  obtain ⟨found, between, above, additions, ensured, imported⟩ := importCheckpoint_ok wellFormed ran
  cases ensured.symm.trans (ensureConversation_known current)
  rcases imported.placed with ⟨extends', -⟩ | ⟨-, top, rfl⟩
  · rw [differs] at extends'
    cases extends'
  · have blank := load_root wellFormed imported.member top
    rcases imported.outcome with ⟨-, root, -⟩ | ⟨-, existing, -⟩ | ⟨-, inserted⟩
    · rw [← root, blank] at differs
      cases differs
    · obtain ⟨other, otherMember, rfl, home, digest⟩ := checkpointByDigest_eq_some existing
      obtain ⟨link, held⟩ := child_of_digest secure wellFormed imported.member otherMember
        (home.trans imported.home.symm) digest
      -- the whole history would be the additions of one checkpoint below the root
      have whole := load_child wellFormed otherMember _ link
      rw [blank, nil_append] at whole
      rw [payload_echoed, ← whole, built.payload] at held
      rw [held, extendsPrefix_self] at differs
      cases differs
    · rw [inserted.checkpoints] at same
      simp at same

/-- What extends the stored history is added as one checkpoint, when it can be stored and is not
held yet. -/
theorem addsOne_iff (secure : CollisionFree D) (wellFormed : store.WellFormed)
    {row : CheckpointRow D} (member : row ∈ store.checkpoints) (named : row.checkpointId = head)
    (home : row.conversationId = conversationId)
    (current : (store.conversations conversationId).bind (·.currentCheckpointId) = some head)
    {incoming new : List CanonicalMessage} (some : new ≠ [])
    (extends' : extendsPrefix (store.loadCheckpointMessages head) incoming = true)
    (rest : incoming.drop (store.loadCheckpointMessages head).length = new) :
    AddsOne store conversationId incoming new ↔
      Storable store conversationId new ∧ Unheld store head new := by
  have ran := importCheckpoint_extends wellFormed member named current extends' rest
  rw [if_neg some] at ran
  subst home named
  cases known : store.checkpointByDigest row.conversationId (chainedDigest row.stateDigest new) with
  | some existing =>
    simp only [known] at ran
    constructor
    · rintro ⟨checkpointId, after, added, imported, grown, -⟩
      cases ran.symm.trans imported
      simp at grown
    · rintro ⟨-, unheld⟩
      obtain ⟨other, otherMember, -, home, digest⟩ := checkpointByDigest_eq_some known
      obtain ⟨link, held⟩ := child_of_digest secure wellFormed member otherMember home digest
      exact absurd held (unheld other otherMember link)
  | none =>
    simp only [known] at ran
    constructor
    · rintro ⟨checkpointId, after, added, imported, grown, -⟩
      have inserted := insertCheckpoint_ok member (ran.symm.trans imported)
      refine ⟨storable_of_inserted wellFormed inserted, fun other otherMember link held => ?_⟩
      obtain ⟨above, aboveMember, same, home, -, digest⟩ :=
        wellFormed.chained.linked other otherMember _ link
      obtain rfl := wellFormed.chained.grown.key_injective aboveMember member same
      refine checkpointByDigest_eq_none.mp known other otherMember home.symm ?_
      rw [digest, chainedDigest, held]
      rfl
    · rintro ⟨storable, -⟩
      obtain ⟨checkpointId, after, done, inserted⟩ := insertCheckpoint_succeeds member storable known
      refine ⟨checkpointId, after, _, ran.trans done, inserted.checkpoints, rfl, ?_⟩
      have later := wellFormed_writesMany wellFormed inserted.writes
      exact later.chained.additions_stored inserted.stored

/-- **A history that comes back unchanged is recognised exactly when it has no tool round**, and
what follows it is then added as one checkpoint exactly when it can be stored and is not held
yet. -/
theorem echo_recognised_iff (secure : CollisionFree D) (reachable : (storeSystem D).Reachable store)
    {row : ConversationRow} (found : store.conversations conversationId = some row)
    (current : row.currentCheckpointId = some head)
    (built : ServerBuilt (store.loadCheckpointMessages head))
    (signed : ∀ message ∈ store.loadCheckpointMessages head, message.Signed)
    {projected : List ProjectedMessage}
    (projects : projectMessages (store.loadCheckpointMessages head) = .ok projected)
    {codec : Codec} (faithful : ∀ message ∈ projected, codec.Faithful message.content)
    {model : String} {internalIds : List String} (lengths : internalIds.length = projected.length)
    {incoming : List CanonicalMessage}
    (back : codec.overTheWire model projected internalIds = .ok incoming)
    {new : List CanonicalMessage} (some : new ≠ []) :
    Recognised store conversationId head incoming ∧
        AddsOne store conversationId (incoming ++ new) new ↔
      (∀ message ∈ store.loadCheckpointMessages head, toolRoundPart message = none) ∧
        Storable store conversationId new ∧ Unheld store head new := by
  have wellFormed := wellFormed_of_reachable reachable
  have at' : (store.conversations conversationId).bind (·.currentCheckpointId) = Option.some head := by
    rw [found, Option.bind_some, current]
  obtain ⟨_, same, top, member, named, home⟩ := wellFormed.owned.current conversationId row found
  obtain rfl := Option.some.inj (current.symm.trans same)
  have segmented := segmented_of_projectMessages built.shaped projects
  have written : codec.overTheWire model projected internalIds = .ok _ :=
    Codec.overTheWire_ok segmented.roleFits
      (carries_projected signed projects faithful) model
  obtain rfl := Except.ok.inj (back.symm.trans written)
  obtain ⟨whole, -⟩ := extendsPrefix_echo built projects lengths []
  obtain ⟨longer, counted⟩ := extendsPrefix_echo built projects lengths new
  rw [append_nil] at whole
  by_cases single : ∀ message ∈ store.loadCheckpointMessages head, toolRoundPart message = none
  · have length : (List.zipWith echoed projected internalIds).length =
        (store.loadCheckpointMessages head).length := by
      rw [length_zipWith, lengths, min_self, counted single]
    have recognised : Recognised store conversationId head
        (List.zipWith echoed projected internalIds) := by
      have ran := importCheckpoint_extends wellFormed member named at' (whole.mpr single)
        (drop_eq_nil_of_le length.le)
      exact ⟨store, ran, rfl⟩
    have added := addsOne_iff secure wellFormed member named home at' some (longer.mpr single)
      (by rw [← length, drop_left])
    rw [added]
    exact ⟨fun both => ⟨single, both.2⟩, fun all => ⟨recognised, all.2⟩⟩
  · have differs := Bool.eq_false_iff.mpr fun same => single (whole.mp same)
    have other := not_recognised secure wellFormed at' built differs
    exact iff_of_false (fun both => other both.1) fun all => single all.1

end Import

/-! ### Samples -/

/-- A question of the client. -/
def storedQuestion : CanonicalMessage :=
  { messageId := "runtime:question", role := .user, origin := .runtime
    content := .parts [.text "what is this?"], runtimeEventId := some "question" }

/-- What a run does that stores a question, and then a tool round when it has a result to commit. -/
def sampleOperations (results : List ToolResult) : List Operation :=
  [.claimRun (samplePrepared "run") 0,
    .appendCheckpoint ⟨"conversation"⟩ ⟨"run"⟩ ⟨1⟩ [storedQuestion]] ++
  results.flatMap fun result =>
    [.createToolRound ⟨"run:round:0"⟩ ⟨"run"⟩ ⟨2⟩ ⟨"looking", "", "model-call", none⟩
        [⟨0, "call", "model-call", "Read", "{}", .null, none⟩] none 0,
      .commitToolResult ⟨"conversation"⟩ ⟨"run"⟩ ⟨"run:round:0"⟩ result]

/-- The store after them. -/
def sampleStore (results : List ToolResult) : Store HistoryDigest :=
  (sampleOperations results).foldl (fun store operation => operation.apply store) Store.empty

theorem reachable_sample (results : List ToolResult) :
    (storeSystem HistoryDigest).Reachable (sampleStore results) := by
  refine ⟨Store.empty, sampleOperations results, rfl, ?_⟩
  rw [sampleStore]
  induction sampleOperations results using List.reverseRecOn with
  | nil => exact .nil
  | append_singleton operations operation ih =>
    rw [foldl_concat]
    exact .snoc ih rfl

theorem load_sample : (sampleStore []).loadCheckpointMessages ⟨2⟩ = [storedQuestion] := rfl

theorem echo_recognised_iff_sample :
    Recognised (sampleStore []) ⟨"conversation"⟩ ⟨2⟩ [storedQuestion] ∧
      AddsOne (sampleStore []) ⟨"conversation"⟩ ([storedQuestion] ++ [sampleQuestion])
        [sampleQuestion] ↔
    (∀ message ∈ (sampleStore []).loadCheckpointMessages ⟨2⟩, toolRoundPart message = none) ∧
      Storable (sampleStore []) ⟨"conversation"⟩ [sampleQuestion] ∧
      Unheld (sampleStore []) ⟨2⟩ [sampleQuestion] := by
  have built : ServerBuilt ((sampleStore []).loadCheckpointMessages ⟨2⟩) := by
    rw [load_sample]
    exact .message ⟨.inr rfl, rfl, rfl⟩ .nil
  have signed : ∀ message ∈ (sampleStore []).loadCheckpointMessages ⟨2⟩, message.Signed := by
    simp [load_sample, storedQuestion, CanonicalMessage.Signed, CanonicalMessage.replayState?]
  have projects : projectMessages ((sampleStore []).loadCheckpointMessages ⟨2⟩) =
      .ok [⟨"runtime:question", .user, .parts [.text "what is this?"]⟩] := by
    rw [load_sample, projectMessages_eq_transduce]
    rfl
  have faithful : ∀ message ∈ [ProjectedMessage.mk "runtime:question" .user
      (.parts [.text "what is this?"])], sampleCodec.Faithful message.content := by
    simp [Codec.Faithful]
  have back : sampleCodec.overTheWire "model" [⟨"runtime:question", .user,
      .parts [.text "what is this?"]⟩] ["cursor-root:question:0"] = .ok [storedQuestion] := rfl
  exact echo_recognised_iff collisionFree_history (reachable_sample []) rfl rfl built signed projects
    faithful rfl back (by simp)

/-- A result for the call of the sample. -/
def sampleResults : List ToolResult := [⟨"call", "text", false, none⟩]

/-- A history with a tool round comes back unchanged and is stored once more, below the root. -/
theorem round_stored_again :
    (storeSystem HistoryDigest).Reachable (sampleStore sampleResults) ∧
    ((sampleStore sampleResults).conversations ⟨"conversation"⟩).bind (·.currentCheckpointId) =
      some ⟨3⟩ ∧
    ServerBuilt ((sampleStore sampleResults).loadCheckpointMessages ⟨3⟩) ∧
    ∃ projected incoming,
      projectMessages ((sampleStore sampleResults).loadCheckpointMessages ⟨3⟩) = .ok projected ∧
      sampleCodec.overTheWire "model" projected
        ["cursor-root:question:0", "cursor-root:part:1", "cursor-root:result:2"] = .ok incoming ∧
      ¬ Recognised (sampleStore sampleResults) ⟨"conversation"⟩ ⟨3⟩ incoming := by
  have history : (sampleStore sampleResults).loadCheckpointMessages ⟨3⟩ =
      [storedQuestion,
        assistantPart ⟨"run:round:0"⟩ ⟨"looking", "", "model-call", none⟩ 0
          (ToolCall.row ⟨0, "call", "model-call", "Read", "{}", .null, none⟩),
        resultMessage ⟨"run:round:0"⟩ (ToolCall.row ⟨0, "call", "model-call", "Read", "{}", .null,
          none⟩) ⟨"call", "text", false, none⟩] := rfl
  refine ⟨reachable_sample _, rfl, ?_, ?_⟩
  · rw [history]
    exact .message ⟨.inr rfl, rfl, rfl⟩ (.result (.call ⟨"run"⟩ 0) .nil)
  · refine ⟨_, _, by rw [history, projectMessages_eq_transduce]; rfl, rfl, ?_⟩
    rintro ⟨after, ran, same⟩
    cases ran

end Byok
