/-
**Preparing a run.** `prepare` of `server/src/cursor/compile/run.rs`, `server/src/store/input_anchors.rs`, and the
messages that wait for the run of `spawn_run_request` in `server/src/cursor/conversation/runtime.rs`.

* `Database` — the store and the table of input anchors; `databaseSystem`, all who use them.
* `prepareTurn` — the base of a turn and the messages that it is compiled to.
* `prepare` — the run behind as many of them as are stored behind the base.
* `startWith` — the run with the messages that wait.
-/

import Byok.Store.Prefix
import Byok.Store.Storable
import Byok.Cursor.Compile.UserTurn

set_option linter.unusedSectionVars false

namespace Byok.Cursor.Compile

open Library Transaction Store

variable {D : Type} [DecidableEq D] [ChainHash D]

/-! ### The database -/

/-- The tables of the store, and `input_anchors`. -/
structure Database (D : Type) where
  store : Store D
  inputAnchors : ConversationId → String → Option CheckpointId

/-- A transaction on the database. -/
abbrev DatabaseTransaction (D : Type) : Type → Type := Transaction (Database D) Error

/-- A transaction of the store. -/
def onStore {α : Type} (transaction : StoreTransaction D α) : DatabaseTransaction D α := fun database =>
  match transaction database.store with
  | .ok (value, after) => .ok (value, { database with store := after })
  | .error error => .error error

/-- A result that no table is looked at for. -/
def ofResult {α : Type} (result : Except Error α) : DatabaseTransaction D α := fun database =>
  result.map fun value => (value, database)

/-- The `INSERT` with `ON CONFLICT DO NOTHING` of `anchor_input`. -/
def insertAnchor (conversationId : ConversationId) (inputId : String) (baseCheckpointId : CheckpointId)
    (database : Database D) : Database D :=
  match database.inputAnchors conversationId inputId with
  | some _ => database
  | none =>
    { database with
      inputAnchors := Function.update database.inputAnchors conversationId
        (Function.update (database.inputAnchors conversationId) inputId (some baseCheckpointId)) }

def anchorInput (conversationId : ConversationId) (inputId : String) (baseCheckpointId : CheckpointId) :
    DatabaseTransaction D CheckpointId := do
  write (insertAnchor conversationId inputId baseCheckpointId)
  let anchored ← read (·.inputAnchors conversationId inputId)
  orFail anchored .database

/-- A call of an operation of the database. -/
inductive Call where
  | operation (operation : Operation)
  | anchorInput (conversationId : ConversationId) (inputId : String) (baseCheckpointId : CheckpointId)

/-- The database after a call. -/
def Call.apply : Call → Database D → Database D
  | .operation called, database => { database with store := called.apply database.store }
  | .anchorInput conversationId inputId baseCheckpointId, database =>
    insertAnchor conversationId inputId baseCheckpointId database

/-- The database and all who use it. -/
def databaseSystem (D : Type) [DecidableEq D] [ChainHash D] : System (Database D) Call where
  initial database := database = ⟨Store.empty, fun _ _ => none⟩
  step database call after := after = call.apply database

/-! ### A turn -/

/-- `AgentRunRequest`, as far as it is prepared here. `baseMessages` are the hydrated messages of the conversation's
state, where there is one, and `conversationId` is the request's own id where it names none. -/
structure RunRequest where
  conversationId : ConversationId
  baseMessages : Option (List CanonicalMessage)
  conversationMode : Option Int
  subagent : Bool
  requestContext : RequestContext
  action : RequestAction

/-- The system prompt at the root of a history. -/
def isPromptRoot (message : CanonicalMessage) : Bool := message.role = .system && message.origin = .prompt

def validatePromptRoot (messages : List CanonicalMessage) : Except Error Unit :=
  match messages.filter isPromptRoot with
  | [prompt] =>
    match prompt.content with
    | .parts [.text _] => .ok ()
    | .parts _ => .error (.protocol "Cursor system prompt root is not one text part")
    | _ => .error (.protocol "Cursor system prompt root is not textual content")
  | prompts =>
    .error (.protocol ("Cursor history contains " ++ toString prompts.length ++ " system prompt roots"))

/-- The history that a request brings, without the prompt. -/
def RunRequest.history (request : RunRequest) : List CanonicalMessage :=
  (request.baseMessages.getD []).filter fun message => !isPromptRoot message

/-- The mode of `prepare`. -/
def RunRequest.mode (request : RunRequest) (number : Int) : Except Error Mode :=
  if request.subagent then .ok .subagent else modeFromProto number

/-- The proposed base: the imported history, or the current checkpoint where there is none. -/
def proposedBase (request : RunRequest) : DatabaseTransaction D CheckpointId :=
  if request.baseMessages.getD [] = [] then onStore (ensureConversation request.conversationId)
  else do
    ofResult (validatePromptRoot (request.baseMessages.getD []))
    onStore (importCheckpoint request.conversationId request.history)

/-- The base of an input: the one that its first preparation found. -/
def baseOf (request : RunRequest) (projection : ActionProjection) (proposed : CheckpointId) :
    DatabaseTransaction D CheckpointId :=
  match projection.inputId with
  | some inputId => anchorInput request.conversationId inputId proposed
  | none => pure proposed

variable (compiler : Compiler) (now : Option String → Time)

/-- The request context that a new input would show. -/
def projectedUserContext (request : RunRequest) (projection : ActionProjection) : Option CanonicalMessage :=
  if projection.inputId.isSome && !projection.compacting then
    compileRequestContext now "identity" request.requestContext request.history
  else none

/-- The event of a turn. -/
def eventOf (request : RunRequest) (projection : ActionProjection) (mode : Mode) : Except Error (Option String) :=
  match projection.eventId, projection.inputId with
  | some eventId, _ => .ok (some eventId)
  | none, some inputId =>
    (userEventId compiler inputId mode projection.turnUser request.requestContext projection.actionContext
      ((projectedUserContext now request projection).map (·.content))).map some
  | none, none => .ok none

/-- The runtime message of an event: the stored one, or a new one. -/
def runtimeMessage (store : Store D) (request : RunRequest) (projection : ActionProjection) (mode : Mode)
    (eventId : String) : Except Error CanonicalMessage :=
  match store.message? request.conversationId ("runtime:" ++ eventId) with
  | some message => .ok message
  | none =>
    compile compiler now eventId mode projection.turnUser request.requestContext projection.actionContext

/-- The request context of an event: the stored one, or a new one. -/
def requestContextMessage (store : Store D) (request : RunRequest) (projection : ActionProjection) (eventId : String) :
    Option CanonicalMessage :=
  match store.message? request.conversationId ("request-context:" ++ eventId) with
  | some message => some message
  | none =>
    if projection.inputId.isSome then
      (projectedUserContext now request projection).map fun message =>
        { message with messageId := "request-context:" ++ eventId }
    else compileRequestContext now eventId request.requestContext request.history

/-- The initial messages, before those that are stored behind the base are left out. -/
def turnMessages (store : Store D) (request : RunRequest) (projection : ActionProjection) (mode : Mode)
    (eventId : Option String) : Except Error (List CanonicalMessage) :=
  if projection.compacting then .ok []
  else
    match eventId with
    | some eventId =>
      (runtimeMessage compiler now store request projection mode eventId).map fun runtime =>
        (requestContextMessage now store request projection eventId).toList ++ [runtime]
    | none => .error (.protocol "Cursor action has an incomplete runtime event")

/-- A turn on its base. -/
structure Turn where
  base : CheckpointId
  eventId : Option String
  messages : List CanonicalMessage
  compacting : Bool

/-- `prepare`, up to the messages that the turn is compiled to. -/
def prepareTurn (request : RunRequest) : DatabaseTransaction D Turn := do
  let projection ← ofResult (action compiler request.conversationMode request.action)
  let mode ← ofResult (request.mode projection.mode)
  let proposed ← proposedBase request
  let base ← baseOf request projection proposed
  let eventId ← ofResult (eventOf compiler now request projection mode)
  let store ← read (·.store)
  let messages ← ofResult (turnMessages compiler now store request projection mode eventId)
  pure { base, eventId, messages, compacting := projection.compacting }

def prepare (runId : RunId) (request : RunRequest) : DatabaseTransaction D PreparedRun := do
  let turn ← prepareTurn compiler now request
  let matched ← onStore (matchCheckpointPrefix request.conversationId turn.base turn.messages)
  pure
    { runId
      conversationId := request.conversationId
      initialMessages := turn.messages.drop matched.2
      action := if turn.compacting then .compact else .start
      baseCheckpointId := matched.1 }

/-- What `spawn_run_request` makes of the pending batches, between `take_pending` and the start of the engine. -/
def startWith (pending : List (List CanonicalMessage)) (prepared : PreparedRun) (store : Store D) :
    PreparedRun × Store D :=
  if pending = [] then (prepared, store)
  else
    let messages := pending.flatten ++ prepared.initialMessages
    match (ensureConversation prepared.conversationId).execute store with
    | (.ok checkpoint, after) =>
      ({ prepared with initialMessages := messages, baseCheckpointId := checkpoint }, after)
    | (.error _, after) => ({ prepared with initialMessages := messages }, after)

/-! ### What the parts do -/

section Parts

variable {compiler now} {request : RunRequest} {database after : Database D} {α : Type} {value : α}

theorem onStore_ok {transaction : StoreTransaction D α} :
    onStore transaction database = .ok (value, after) ↔
      transaction database.store = .ok (value, after.store) ∧ after.inputAnchors = database.inputAnchors := by
  unfold onStore
  rcases ran : transaction database.store with error | ⟨made, store⟩
  · simp
  · obtain ⟨tables, anchors⟩ := after
    simp only [Except.ok.injEq, Prod.mk.injEq, Database.mk.injEq]
    constructor
    · rintro ⟨rfl, rfl, rfl⟩
      exact ⟨⟨rfl, rfl⟩, rfl⟩
    · rintro ⟨⟨rfl, rfl⟩, rfl⟩
      exact ⟨rfl, rfl, rfl⟩

theorem ofResult_ok {result : Except Error α} :
    (ofResult result : DatabaseTransaction D α) database = .ok (value, after) ↔ result = .ok value ∧ database = after := by
  cases result with
  | error error => simp [ofResult, Except.map]
  | ok made => simp [ofResult, Except.map]

theorem insertAnchor_kept {conversationId conversationId' : ConversationId} {inputId inputId' : String}
    {base anchored : CheckpointId} (found : database.inputAnchors conversationId inputId = some anchored) :
    (insertAnchor conversationId' inputId' base database).inputAnchors conversationId inputId = some anchored := by
  unfold insertAnchor
  split
  · exact found
  · rename_i free
    by_cases here : conversationId = conversationId'
    · subst here
      by_cases own : inputId = inputId'
      · subst own
        rw [found] at free
        cases free
      · simp [Function.update_of_ne own, found]
    · simp [Function.update_of_ne here, found]

theorem insertAnchor_store {conversationId : ConversationId} {inputId : String} {base : CheckpointId} :
    (insertAnchor conversationId inputId base database).store = database.store := by
  unfold insertAnchor
  split <;> rfl

theorem anchorInput_ok {conversationId : ConversationId} {inputId : String} {base anchored : CheckpointId}
    (ran : anchorInput conversationId inputId base database = .ok (anchored, after)) :
    after.store = database.store ∧ after.inputAnchors conversationId inputId = some anchored ∧
      ((database.inputAnchors conversationId inputId = some anchored) ∨ anchored = base) ∧
      after = insertAnchor conversationId inputId base database := by
  replace ran := write_bind_ok.mp ran
  replace ran := read_bind_ok.mp ran
  obtain ⟨found, rfl⟩ := orFail_ok.mp ran
  refine ⟨insertAnchor_store, found, ?_, rfl⟩
  unfold insertAnchor at found
  split at found
  · exact .inl found
  · simp only [Function.update_self, Option.some.injEq] at found
    exact .inr found.symm

theorem anchorInput_anchored {conversationId : ConversationId} {inputId : String} {base anchored : CheckpointId}
    (found : database.inputAnchors conversationId inputId = some anchored) :
    anchorInput conversationId inputId base database = .ok (anchored, database) := by
  have same : insertAnchor conversationId inputId base database = database := by simp only [insertAnchor, found]
  rw [anchorInput, bind_eq rfl, same, bind_eq rfl]
  simp only [found]
  rfl

theorem proposedBase_writes (wellFormed : database.store.WellFormed) {proposed : CheckpointId}
    (ran : proposedBase request database = .ok (proposed, after)) :
    WritesMany database.store after.store ∧ after.inputAnchors = database.inputAnchors := by
  unfold proposedBase at ran
  split at ran
  · obtain ⟨ensured, anchors⟩ := onStore_ok.mp ran
    exact ⟨ensureConversation_writes ensured, anchors⟩
  · obtain ⟨_, _, valid, ran⟩ := bind_ok.mp ran
    obtain ⟨-, rfl⟩ := ofResult_ok.mp valid
    obtain ⟨imported, anchors⟩ := onStore_ok.mp ran
    exact ⟨importCheckpoint_writes wellFormed imported, anchors⟩

/-- What a preparation of a turn did. -/
structure Prepares (compiler : Compiler) (now : Option String → Time) (request : RunRequest) (database : Database D)
    (turn : Turn) (after : Database D) (projection : ActionProjection) (mode : Mode) (proposed : CheckpointId)
    (between : Database D) : Prop where
  projected : action compiler request.conversationMode request.action = .ok projection
  chosen : request.mode projection.mode = .ok mode
  proposing : proposedBase request database = .ok (proposed, between)
  based : baseOf request projection proposed between = .ok (turn.base, after)
  event : eventOf compiler now request projection mode = .ok turn.eventId
  compiled : turnMessages compiler now after.store request projection mode turn.eventId = .ok turn.messages
  compacts : turn.compacting = projection.compacting

theorem prepareTurn_ok {turn : Turn} :
    prepareTurn compiler now request database = .ok (turn, after) ↔
      ∃ projection mode proposed between,
        Prepares compiler now request database turn after projection mode proposed between := by
  constructor
  · intro ran
    obtain ⟨projection, _, first, ran⟩ := bind_ok.mp ran
    obtain ⟨projected, rfl⟩ := ofResult_ok.mp first
    obtain ⟨mode, _, second, ran⟩ := bind_ok.mp ran
    obtain ⟨chosen, rfl⟩ := ofResult_ok.mp second
    obtain ⟨proposed, between, proposing, ran⟩ := bind_ok.mp ran
    obtain ⟨base, _, based, ran⟩ := bind_ok.mp ran
    obtain ⟨eventId, _, third, ran⟩ := bind_ok.mp ran
    obtain ⟨event, rfl⟩ := ofResult_ok.mp third
    replace ran := read_bind_ok.mp ran
    obtain ⟨messages, _, last, ran⟩ := bind_ok.mp ran
    obtain ⟨compiled, rfl⟩ := ofResult_ok.mp last
    obtain ⟨rfl, rfl⟩ := pure_ok.mp ran
    exact ⟨projection, mode, proposed, between, projected, chosen, proposing, based, event, compiled, rfl⟩
  · rintro ⟨projection, mode, proposed, between, prepares⟩
    obtain ⟨base, eventId, messages, compacting⟩ := turn
    obtain ⟨projected, chosen, proposing, based, event, compiled, same⟩ := prepares
    dsimp only at same based event compiled
    subst same
    rw [prepareTurn, bind_eq (ofResult_ok.mpr ⟨projected, rfl⟩), bind_eq (ofResult_ok.mpr ⟨chosen, rfl⟩),
      bind_eq proposing, bind_eq based, bind_eq (ofResult_ok.mpr ⟨event, rfl⟩), bind_eq rfl,
      bind_eq (ofResult_ok.mpr ⟨compiled, rfl⟩)]
    rfl

theorem prepare_ok {runId : RunId} {prepared : PreparedRun}
    (ran : prepare compiler now runId request database = .ok (prepared, after)) :
    ∃ turn between reused, prepareTurn compiler now request database = .ok (turn, between) ∧
      matchCheckpointPrefix request.conversationId turn.base turn.messages between.store =
        .ok ((prepared.baseCheckpointId, reused), after.store) ∧
      after.inputAnchors = between.inputAnchors ∧
      prepared.initialMessages = turn.messages.drop reused ∧ prepared.conversationId = request.conversationId := by
  obtain ⟨turn, between, turned, ran⟩ := bind_ok.mp ran
  obtain ⟨matched, _, looked, ran⟩ := bind_ok.mp ran
  obtain ⟨found, anchors⟩ := onStore_ok.mp looked
  obtain ⟨rfl, rfl⟩ := pure_ok.mp ran
  exact ⟨turn, between, matched.2, turned, found, anchors, rfl, rfl⟩

end Parts

end Byok.Cursor.Compile
