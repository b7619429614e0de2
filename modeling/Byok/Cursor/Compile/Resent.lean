/-
**A turn that is sent again.**

A user's turn is anchored at the base of its first preparation, and its messages go by what it is compiled to but for
the time. Once they are committed the turn is prepared again as it was.

* `prepareTurn_again` — the turn, at any later time of the day.
* `Resumes` — what is prepared goes on with what was prepared before.
* `resent_resumes` — it does; and another turn under the same message id has the same event exactly where it is
  compiled to the same.
-/

import Byok.Cursor.Compile.Waiting
import Byok.Store.Reappend

set_option linter.unusedSectionVars false

namespace Byok.Cursor.Compile

open Library Transaction Store List

variable {D : Type} [DecidableEq D] [ChainHash D]

/-! ### What a turn is compiled to -/

section Content

variable (compiler : Compiler) (now : Option String → Time)

/-- What the event of a turn goes by: the request context that it would show, and the runtime message without the
time. -/
def turnContent (request : RunRequest) (projection : ActionProjection) (mode : Mode) :
    Except Error (Option MessageContent × MessageContent) :=
  (compileWithTimestamp compiler "identity" mode projection.turnUser request.requestContext projection.actionContext "").map
    fun runtime => ((projectedUserContext now request projection).map (·.content), runtime.content)

/-- The input of a request. -/
def inputOf (request : RunRequest) : Except Error (Option String) :=
  (action compiler request.conversationMode request.action).map (·.inputId)

/-- What the turn of a request is compiled to. -/
def contentOf (request : RunRequest) : Except Error (Option MessageContent × MessageContent) := do
  let projection ← action compiler request.conversationMode request.action
  let mode ← request.mode projection.mode
  turnContent compiler now request projection mode

end Content

section Events

variable {compiler : Compiler} {now later : Option String → Time} {request : RunRequest} {projection : ActionProjection}
  {mode : Mode} {eventId inputId : String}

theorem projectedUserContext_day
    (day : (now request.requestContext.timeZone).today = (later request.requestContext.timeZone).today) :
    projectedUserContext later request projection = projectedUserContext now request projection := by
  unfold projectedUserContext
  rw [compileRequestContext_day day]

theorem eventOf_day
    (day : (now request.requestContext.timeZone).today = (later request.requestContext.timeZone).today) :
    eventOf compiler later request projection mode = eventOf compiler now request projection mode := by
  unfold eventOf
  rw [projectedUserContext_day day]

theorem action_input {conversationMode : Option Int} {called : RequestAction}
    (projected : action compiler conversationMode called = .ok projection) (input : projection.inputId = some inputId) :
    projection.eventId = none ∧ projection.compacting = false := by
  cases called with
  | userMessageAction sent =>
    unfold action at projected
    cases user : sent.userMessage with
    | none => simp [user] at projected
    | some user' =>
      simp only [user] at projected
      split at projected
      all_goals
        split at projected
        case isTrue =>
          obtain rfl := Except.ok.inj projected
          cases input
        case isFalse =>
          obtain rfl := Except.ok.inj projected
          exact ⟨rfl, rfl⟩
  | executePlanAction plan =>
    simp only [action, executePlan] at projected
    split at projected
    · cases projected
    · obtain rfl := Except.ok.inj projected
      cases input

theorem eventOf_input (fresh : projection.eventId = none) (input : projection.inputId = some inputId) {event : Option String}
    (event_eq : eventOf compiler now request projection mode = .ok event) :
    ∃ content, turnContent compiler now request projection mode = .ok content ∧
      event = some (inputId ++ ":" ++ compiler.digest (compiler.toVec content)) := by
  simp only [eventOf, fresh, input, userEventId] at event_eq
  unfold turnContent
  cases compiled : compileWithTimestamp compiler "identity" mode projection.turnUser request.requestContext
      projection.actionContext "" with
  | error error => simp [compiled, Except.map] at event_eq
  | ok runtime =>
    simp only [compiled, Except.map, Except.ok.injEq] at event_eq ⊢
    exact ⟨_, rfl, event_eq.symm⟩

theorem turnContent_parts {content : Option MessageContent × MessageContent}
    (compiled : turnContent compiler now request projection mode = .ok content) :
    ∃ (projected : Option (List ContentPart)) (parts : List ContentPart),
      content = (projected.map .parts, .parts parts) := by
  unfold turnContent at compiled
  cases runtime : compileWithTimestamp compiler "identity" mode projection.turnUser request.requestContext
      projection.actionContext "" with
  | error error => simp [runtime, Except.map] at compiled
  | ok made =>
    obtain ⟨text, images, -, -, rfl⟩ := compileWithTimestamp_ok runtime
    simp only [runtime, Except.map, Except.ok.injEq] at compiled
    have shown : ∃ projected : Option (List ContentPart),
        (projectedUserContext now request projection).map (·.content) = projected.map .parts := by
      unfold projectedUserContext
      split
      · exact compileRequestContext_parts now "identity" request.requestContext request.history
      · exact ⟨none, rfl⟩
    obtain ⟨projected, shown⟩ := shown
    exact ⟨projected, _, by rw [← compiled, shown]⟩

theorem event_eq_iff (lawful : compiler.Lawful) {other : RunRequest} {otherProjection : ActionProjection} {otherMode : Mode}
    {content content' : Option MessageContent × MessageContent}
    (compiled : turnContent compiler now request projection mode = .ok content)
    (compiled' : turnContent compiler later other otherProjection otherMode = .ok content') :
    inputId ++ ":" ++ compiler.digest (compiler.toVec content) = inputId ++ ":" ++ compiler.digest (compiler.toVec content') ↔
      content = content' := by
  constructor
  · intro same
    have texts := congrArg String.toList same
    simp only [String.toList_append, append_cancel_left_eq] at texts
    have codes := lawful.digest (String.toList_inj.mp texts)
    obtain ⟨projected, parts, rfl⟩ := turnContent_parts compiled
    obtain ⟨projected', parts', rfl⟩ := turnContent_parts compiled'
    obtain ⟨rfl, rfl⟩ := lawful.toVec codes
    rfl
  · intro same
    rw [same]

end Events

/-! ### The turn, again -/

section Again

variable {compiler : Compiler} {now later : Option String → Time} {request : RunRequest}
  {database after again ended : Database D} {turn : Turn}

theorem turnMessages_event {store : Store D} {projection : ActionProjection} {mode : Mode} {eventId : String}
    {messages : List CanonicalMessage} (starts : projection.compacting = false)
    (compiled : turnMessages compiler now store request projection mode (some eventId) = .ok messages) :
    ∃ runtime, runtimeMessage compiler now store request projection mode eventId = .ok runtime ∧
      messages = (requestContextMessage now store request projection eventId).toList ++ [runtime] := by
  unfold turnMessages at compiled
  rw [if_neg (by simp [starts])] at compiled
  cases runs : runtimeMessage compiler now store request projection mode eventId with
  | error error => simp [runs, Except.map] at compiled
  | ok runtime =>
    simp only [runs, Except.map, Except.ok.injEq] at compiled
    exact ⟨runtime, rfl, compiled.symm⟩

theorem runtimeMessage_id {store : Store D} (serialised : store.Serialised) {projection : ActionProjection} {mode : Mode}
    {eventId : String} {runtime : CanonicalMessage}
    (compiled : runtimeMessage compiler now store request projection mode eventId = .ok runtime) :
    runtime.messageId = "runtime:" ++ eventId := by
  unfold runtimeMessage at compiled
  cases known : store.message? request.conversationId ("runtime:" ++ eventId) with
  | some stored =>
    rw [known] at compiled
    obtain rfl := Except.ok.inj compiled
    exact (serialised.message? known).2
  | none =>
    rw [known] at compiled
    obtain ⟨_, _, -, -, rfl⟩ := compileWithTimestamp_ok compiled
    rfl

/-- No request context is stored for a turn that has none. -/
def Quiet (store : Store D) (conversationId : ConversationId) (turn : Turn) : Prop :=
  ∀ eventId ∈ turn.eventId, (∀ message ∈ turn.messages, message.messageId ≠ "request-context:" ++ eventId) →
    store.message? conversationId ("request-context:" ++ eventId) = none

theorem turnMessages_again {store stored : Store D} (serialised : store.Serialised)
    {projection : ActionProjection} {mode : Mode} (starts : projection.compacting = false)
    {inputId : String} (input : projection.inputId = some inputId) {eventId : String}
    {messages : List CanonicalMessage}
    (day : (now request.requestContext.timeZone).today = (later request.requestContext.timeZone).today)
    (compiled : turnMessages compiler now store request projection mode (some eventId) = .ok messages)
    (kept : ∀ message ∈ messages, stored.message? request.conversationId message.messageId = some message)
    (quiet : (∀ message ∈ messages, message.messageId ≠ "request-context:" ++ eventId) →
      stored.message? request.conversationId ("request-context:" ++ eventId) = none) :
    turnMessages compiler later stored request projection mode (some eventId) = .ok messages := by
  obtain ⟨runtime, runs, rfl⟩ := turnMessages_event starts compiled
  have named := runtimeMessage_id serialised runs
  have own := kept runtime (mem_append_right _ (mem_singleton_self _))
  rw [named] at own
  have runs' : runtimeMessage compiler later stored request projection mode eventId = .ok runtime := by
    simp only [runtimeMessage, own]
  have context : requestContextMessage later stored request projection eventId =
      requestContextMessage now store request projection eventId := by
    cases shown : requestContextMessage now store request projection eventId with
    | some message =>
      have known := kept message (mem_append_left _ (by rw [shown]; exact mem_singleton_self _))
      rw [requestContextMessage_id serialised shown] at known
      simp only [requestContextMessage, known]
    | none =>
      have silent := quiet fun message listed => by
        rw [shown] at listed
        obtain rfl := mem_singleton.mp listed
        intro same
        have heads := congrArg (fun text => text.toList.take 2) (named.symm.trans same)
        simp [String.toList_append] at heads
      unfold requestContextMessage at shown ⊢
      rw [silent]
      cases known : store.message? request.conversationId ("request-context:" ++ eventId) with
      | some message =>
        rw [known] at shown
        cases shown
      | none =>
        rw [known] at shown
        simp only [input, Option.isSome_some, if_true] at shown ⊢
        rw [projectedUserContext_day day]
        exact shown
  unfold turnMessages
  rw [if_neg (by simp [starts])]
  simp only [runs', Except.map, context]

/-- **A turn whose messages are stored is prepared again as it was**, at any time of the day. -/
theorem prepareTurn_again (sound : Sound database) {inputId : String} (input : inputOf compiler request = .ok (some inputId))
    (turned : prepareTurn compiler now request database = .ok (turn, after))
    (day : (now request.requestContext.timeZone).today = (later request.requestContext.timeZone).today)
    (grows : Grows after again)
    (kept : ∀ message ∈ turn.messages, again.store.message? request.conversationId message.messageId = some message)
    {proposed : CheckpointId} (accepted : proposedBase request again = .ok (proposed, ended))
    (quiet : Quiet ended.store request.conversationId turn) :
    prepareTurn compiler later request again = .ok (turn, ended) := by
  obtain ⟨projection, mode, first, between, prepares⟩ := prepareTurn_ok.mp turned
  have own : projection.inputId = some inputId := by
    simp only [inputOf, prepares.projected, Except.map, Except.ok.injEq] at input
    exact input
  obtain ⟨fresh, starts⟩ := action_input prepares.projected own
  obtain ⟨one, two⟩ := prepares.grows sound
  have serialised := (two.sound (one.sound sound)).serialised
  have sound' := grows.sound (two.sound (one.sound sound))
  obtain ⟨wrote, anchors⟩ := proposedBase_writes sound'.wellFormed accepted
  have anchored : ended.inputAnchors request.conversationId inputId = some turn.base := by
    have based := prepares.based
    simp only [baseOf, own] at based
    rw [anchors]
    exact grows.anchors _ _ _ (anchorInput_ok based).2.1
  obtain ⟨content, -, event⟩ := eventOf_input fresh own prepares.event
  have compiled := prepares.compiled
  rw [event] at compiled
  refine prepareTurn_ok.mpr ⟨projection, mode, proposed, ended, prepares.projected, prepares.chosen, accepted, ?_, ?_, ?_,
    prepares.compacts⟩
  · simp only [baseOf, own]
    exact anchorInput_anchored anchored
  · rw [eventOf_day day]
    exact prepares.event
  · rw [event]
    refine turnMessages_again serialised starts own day compiled (fun message listed => ?_) (quiet _ event)
    exact message?_extends (writesMany_extends wrote).messages (kept message listed)

end Again

/-! ### What is prepared again -/

/-- A run goes on with what another one was prepared for. -/
structure Resumes (database : Database D) (conversationId : ConversationId) (prepared resumed : PreparedRun) : Prop where
  history : database.store.loadCheckpointMessages resumed.baseCheckpointId ++ resumed.initialMessages =
    database.store.loadCheckpointMessages prepared.baseCheckpointId ++ prepared.initialMessages
  descends : ∃ messages, database.store.Follows conversationId prepared.baseCheckpointId messages resumed.baseCheckpointId
  appends : ∀ calls later, (databaseSystem D).Run database calls later → ∀ runId error,
    appendMessagesOnce conversationId runId resumed.baseCheckpointId
      (later.store.chainIdentities conversationId resumed.baseCheckpointId) resumed.initialMessages later.store =
      .error error → ¬ Reused error

section Follows

variable [LawfulChainHash D] {store : Store D} {conversationId : ConversationId} {base head last : CheckpointId}
  {messages stored rest : List CanonicalMessage}

theorem Follows.behind (follows : store.Follows conversationId base stored head)
    (behind : store.StoredBehind conversationId head rest messages last) :
    store.StoredBehind conversationId base (stored ++ rest) (stored ++ messages) last := by
  induction follows with
  | nil checkpointId => exact behind
  | cons adds more ih => exact (ih behind).cons adds

theorem StoredBehind.goes_on (wellFormed : store.WellFormed) (serialised : store.Serialised)
    (known : ∃ row ∈ store.checkpoints, row.checkpointId = base) {all : List CanonicalMessage}
    (sent : ∀ message ∈ all, message.payload = message)
    (behind : store.StoredBehind conversationId base all messages last)
    (follows : store.Follows conversationId base stored head) (part : all = stored ++ rest) :
    ∃ more, store.Follows conversationId head more last := by
  obtain ⟨more, other, further⟩ := exists_storedBehind store conversationId head rest
  have whole := Follows.behind follows further
  rw [← part] at whole
  obtain ⟨-, rfl⟩ := behind.unique wellFormed serialised known sent whole
  exact ⟨more, further.follows⟩

end Follows

section Resumed

variable [LawfulChainHash D] {compiler : Compiler} {now later : Option String → Time} {request : RunRequest}
  {start first before again ended : Database D} {runId runId' : RunId} {prepared : PreparedRun} {turn : Turn}

theorem Follows.stored (sound : Sound first) {conversationId : ConversationId} {base head : CheckpointId}
    {stored : List CanonicalMessage} (follows : first.store.Follows conversationId base stored head) :
    ∀ message ∈ stored, first.store.message? conversationId message.messageId = some message := by
  induction follows with
  | nil checkpointId => exact fun _ listed => nomatch listed
  | @cons above head message rest row adds more ih =>
    intro other listed
    rcases mem_cons.mp listed with rfl | later
    · have own : other ∈ first.store.loadCheckpointMessages row.checkpointId := by
        rw [load_child sound.wellFormed adds.member _ adds.below, adds.added]
        exact mem_append_right _ (mem_singleton_self _)
      rw [← adds.home]
      exact load_stored sound.wellFormed adds.member own
    · exact ih other later

theorem resumes (sound : Sound start) {inputId : String} (input : inputOf compiler request = .ok (some inputId))
    (turned : prepareTurn compiler now request start = .ok (turn, first))
    (ran : prepare compiler now runId request start = .ok (prepared, first))
    {calls : List Call} (run : (databaseSystem D).Run first calls before) {appender : RunId}
    {appended : List (CheckpointId × Bool)} {committed : Store D}
    (committing : appendMessagesOnce request.conversationId appender prepared.baseCheckpointId
      (before.store.chainIdentities request.conversationId prepared.baseCheckpointId) prepared.initialMessages before.store =
      .ok (appended, committed))
    {more : List Call} (run' : (databaseSystem D).Run { before with store := committed } more again)
    (day : (now request.requestContext.timeZone).today = (later request.requestContext.timeZone).today)
    {proposed : CheckpointId} (accepted : proposedBase request again = .ok (proposed, ended))
    (quiet : Quiet ended.store request.conversationId turn) :
    ∃ resumed, prepare compiler later runId' request again = .ok (resumed, ended) ∧
      Resumes ended request.conversationId prepared resumed := by
  obtain ⟨other, stored, turned', behind, messages, home, base⟩ := prepare_behind sound ran
  obtain ⟨rfl, -⟩ := Prod.mk.inj (Except.ok.inj (turned.symm.trans turned'))
  obtain ⟨grown, sent⟩ := prepareTurn_grows sound turned
  have sound₁ := grown.sound sound
  have grows₁ := run_grows sound₁ run
  have sound₂ := grows₁.sound sound₁
  have initial : ∀ message ∈ prepared.initialMessages, message.payload = message := fun message listed =>
    sent message (by rw [messages]; exact mem_append_right _ listed)
  have commits : Grows before { before with store := committed } := by
    refine ⟨?_, fun _ _ _ => id⟩
    by_cases nothing : prepared.initialMessages = []
    · rw [nothing, appendMessagesOnce, appendMessagesWith, if_pos rfl] at committing
      obtain ⟨-, rfl⟩ := pure_ok.mp committing
      exact .refl
    · exact (appendMessagesOnce_ok sound₂.wellFormed nothing committing).writes
  have grows₂ := run_grows (commits.sound sound₂) run'
  have grows := grows₁.trans (commits.trans grows₂)
  have sound₃ := grows.sound sound₁
  -- all of the turn is in the table
  have kept : ∀ message ∈ turn.messages,
      again.store.message? request.conversationId message.messageId = some message := by
    intro message listed
    rw [messages] at listed
    rcases mem_append.mp listed with early | late
    · exact message?_extends grows.extends.messages (Follows.stored sound₁ behind.follows message early)
    · exact message?_extends grows₂.extends.messages
        (appended_stored sound₂.wellFormed committing initial message late)
  have turned_again := prepareTurn_again sound input turned day grows kept accepted quiet
  obtain ⟨wrote, anchors⟩ := proposedBase_writes sound₃.wellFormed accepted
  have ends : Grows again ended := ⟨wrote, fun _ _ _ found => anchors ▸ found⟩
  have sound₄ := ends.sound sound₃
  have grows' := grows.trans ends
  have base' : ∃ row ∈ ended.store.checkpoints, row.checkpointId = turn.base := by
    obtain ⟨row, member, named⟩ := base
    exact ⟨row, grows'.extends.checkpoints.subset member, named⟩
  obtain ⟨stored', head', behind'⟩ :=
    exists_storedBehind ended.store request.conversationId turn.base turn.messages
  have matched := matchCheckpointPrefix_succeeds sound₄.wellFormed sound₄.serialised base' sent behind'
  have earlier := behind.follows.extends sound₁.wellFormed.chained grows'.extends
  refine ⟨{ runId := runId'
            conversationId := request.conversationId
            initialMessages := turn.messages.drop stored'.length
            action := if turn.compacting then .compact else .start
            baseCheckpointId := head' }, ?_, ?_,
    StoredBehind.goes_on sound₄.wellFormed sound₄.serialised base' sent behind' earlier messages, ?_⟩
  · rw [prepare, bind_eq turned_again, bind_eq (onStore_ok.mpr ⟨matched, rfl⟩)]
    rfl
  · obtain ⟨rest, split⟩ := behind'.part
    show ended.store.loadCheckpointMessages head' ++ turn.messages.drop stored'.length =
      ended.store.loadCheckpointMessages prepared.baseCheckpointId ++ prepared.initialMessages
    rw [behind'.follows.load sound₄.wellFormed, earlier.load sound₄.wellFormed, append_assoc, append_assoc,
      ← messages, ← split, drop_left]
  · intro calls' last run'' appender' error failed
    have grows₅ := run_grows sound₄ run''
    refine append_not_reused (grows₅.sound sound₄).wellFormed (fun message listed => ?_) (fun message listed => ?_) failed
    · have own := kept message (mem_of_mem_drop listed)
      exact mem_of_message? (message?_extends (ends.trans grows₅).extends.messages own)
    · exact sent message (mem_of_mem_drop listed)

end Resumed

/-! ### Turns under one message id -/

section Others

variable {compiler : Compiler} {now later : Option String → Time} {request other : RunRequest}
  {database after database' after' : Database D} {turn turn' : Turn} {inputId : String}

theorem event_of_turn (input : inputOf compiler request = .ok (some inputId))
    (turned : prepareTurn compiler now request database = .ok (turn, after)) :
    ∃ projection mode content, action compiler request.conversationMode request.action = .ok projection ∧
      request.mode projection.mode = .ok mode ∧ turnContent compiler now request projection mode = .ok content ∧
      contentOf compiler now request = .ok content ∧
      turn.eventId = some (inputId ++ ":" ++ compiler.digest (compiler.toVec content)) := by
  obtain ⟨projection, mode, _, _, prepares⟩ := prepareTurn_ok.mp turned
  have own : projection.inputId = some inputId := by
    simp only [inputOf, prepares.projected, Except.map, Except.ok.injEq] at input
    exact input
  obtain ⟨fresh, -⟩ := action_input prepares.projected own
  obtain ⟨content, compiled, event⟩ := eventOf_input fresh own prepares.event
  refine ⟨projection, mode, content, prepares.projected, prepares.chosen, compiled, ?_, event⟩
  simp only [contentOf, prepares.projected, prepares.chosen, compiled, bind, Except.bind]

/-- **Turns under one input have one event exactly where they are compiled to the same.** -/
theorem events_iff (lawful : compiler.Lawful) (input : inputOf compiler request = .ok (some inputId))
    (turned : prepareTurn compiler now request database = .ok (turn, after))
    (input' : inputOf compiler other = inputOf compiler request)
    (turned' : prepareTurn compiler later other database' = .ok (turn', after')) :
    turn'.eventId = turn.eventId ↔ contentOf compiler later other = contentOf compiler now request := by
  obtain ⟨projection, mode, content, -, -, compiled, whole, event⟩ := event_of_turn input turned
  obtain ⟨projection', mode', content', -, -, compiled', whole', event'⟩ := event_of_turn (input'.trans input) turned'
  rw [whole, whole', event, event', Option.some.injEq, Except.ok.injEq]
  exact event_eq_iff lawful compiled' compiled

/-- The request with another text. -/
def RunRequest.withText (request : RunRequest) (user : UserMessage) (prepended : List String) (text : String) :
    RunRequest :=
  { request with
    action := .userMessageAction { userMessage := some { user with text }, prependUserMessages := prepended } }

/-- The mode of a message of the user. -/
def userMode (conversationMode : Option Int) (user : UserMessage) : Int :=
  if user.mode = 0 then conversationMode.getD user.mode else user.mode

/-- The context of a message of the user. -/
def userContext (user : UserMessage) (prepended : List String) : String :=
  "\n\n".intercalate ((prepended.map trim).filter (· ≠ "") ++ user.subagentSystemReminder.toList.filter (· ≠ ""))

theorem action_user {conversationMode : Option Int} {user : UserMessage} {prepended : List String}
    {projection : ActionProjection} (named : user.messageId ≠ "")
    (projected : action compiler conversationMode
      (.userMessageAction { userMessage := some user, prependUserMessages := prepended }) = .ok projection) :
    projection.eventId = none ∧ (projection.inputId ≠ none → projection.turnUser = user ∧
      projection.inputId = some ("cursor:user:" ++ user.messageId) ∧
      projection.mode = userMode conversationMode user ∧ projection.actionContext = userContext user prepended) := by
  simp only [action, if_neg named] at projected
  split at projected
  · obtain rfl := Except.ok.inj projected
    exact ⟨rfl, fun starts => absurd rfl starts⟩
  · obtain rfl := Except.ok.inj projected
    exact ⟨rfl, fun _ => ⟨rfl, rfl, rfl, rfl⟩⟩

theorem contentOf_user {user : UserMessage} {prepended : List String}
    (sent : request.action = .userMessageAction { userMessage := some user, prependUserMessages := prepended })
    (named : user.messageId ≠ "") (input : inputOf compiler request = .ok (some inputId))
    {content : Option MessageContent × MessageContent} (whole : contentOf compiler now request = .ok content) :
    ∃ mode runtime, request.mode (userMode request.conversationMode user) = .ok mode ∧
      compileWithTimestamp compiler "identity" mode user request.requestContext (userContext user prepended) "" =
        .ok runtime ∧ content.2 = runtime.content := by
  unfold inputOf at input
  unfold contentOf at whole
  rw [sent] at input whole
  cases projected : action compiler request.conversationMode
      (.userMessageAction { userMessage := some user, prependUserMessages := prepended }) with
  | error error => simp [projected, Except.map] at input
  | ok projection =>
    simp only [projected, Except.map, Except.ok.injEq] at input
    obtain ⟨-, shape⟩ := action_user named projected
    obtain ⟨turnUser, -, mode, context⟩ := shape (by rw [input]; exact nofun)
    simp only [projected, bind, Except.bind, mode] at whole
    cases chosen : request.mode (userMode request.conversationMode user) with
    | error error => simp [chosen] at whole
    | ok mode =>
      simp only [chosen, turnContent, turnUser, context] at whole
      cases compiled : compileWithTimestamp compiler "identity" mode user request.requestContext
          (userContext user prepended) "" with
      | error error => simp [compiled, Except.map] at whole
      | ok runtime =>
        simp only [compiled, Except.map, Except.ok.injEq] at whole
        exact ⟨mode, runtime, rfl, compiled, by rw [← whole]⟩

theorem input_of_event {user : UserMessage} {prepended : List String}
    (sent : request.action = .userMessageAction { userMessage := some user, prependUserMessages := prepended })
    (named : user.messageId ≠ "") (turned : prepareTurn compiler now request database = .ok (turn, after))
    (event : turn.eventId ≠ none) : inputOf compiler request = .ok (some ("cursor:user:" ++ user.messageId)) := by
  obtain ⟨projection, mode, _, _, prepares⟩ := prepareTurn_ok.mp turned
  have projected := prepares.projected
  rw [sent] at projected
  obtain ⟨eventless, shape⟩ := action_user named projected
  have starts : projection.inputId ≠ none := by
    intro nothing
    have made := prepares.event
    simp only [eventOf, eventless, nothing, Except.ok.injEq] at made
    exact event made.symm
  rw [inputOf, prepares.projected, Except.map, (shape starts).2.1]

/-- **Turns under one message id with different texts have different events**, where the templates enclose the text. -/
theorem events_text (lawful : compiler.Lawful)
    (encloses : ∀ mode, ∃ before after, Encloses (compiler.runtime mode) before after)
    {user : UserMessage} {prepended : List String} {text : String}
    (sent : request.action = .userMessageAction { userMessage := some user, prependUserMessages := prepended })
    (named : user.messageId ≠ "") (input : inputOf compiler request = .ok (some inputId))
    (turned : prepareTurn compiler now request database = .ok (turn, after))
    (turned' : prepareTurn compiler later (request.withText user prepended text) database' = .ok (turn', after'))
    (same : turn'.eventId = turn.eventId) : user.text = text := by
  obtain ⟨_, _, content, -, -, -, whole, event⟩ := event_of_turn input turned
  have own := input_of_event sent named turned (by rw [event]; exact nofun)
  have sent' : (request.withText user prepended text).action =
    .userMessageAction { userMessage := some { user with text }, prependUserMessages := prepended } := rfl
  have input' := input_of_event sent' named turned' (by rw [same, event]; exact nofun)
  have contents := (events_iff lawful input turned (input'.trans own.symm) turned').mp same
  obtain ⟨mode, runtime, chosen, compiled, second⟩ := contentOf_user sent named input whole
  obtain ⟨mode', runtime', chosen', compiled', second'⟩ := contentOf_user sent' named input' (contents.trans whole)
  obtain rfl : mode' = mode := Except.ok.inj (chosen'.symm.trans chosen)
  obtain ⟨before, behind, enclosed⟩ := encloses mode'
  exact text_of_content enclosed compiled compiled' (second.symm.trans second')

end Others

section Resent

variable [LawfulChainHash D] {compiler : Compiler} {now later : Option String → Time} {request : RunRequest}
  {start first before again ended : Database D} {runId runId' : RunId} {prepared : PreparedRun} {turn : Turn}

/-- **A turn of the user that is sent again goes on with itself**: once its initial messages were committed it is
prepared, after any further calls, to the same history on a checkpoint behind its first base. And a turn under the same
message id has another event unless it is compiled to the same, as it is not with another text. -/
theorem resent_resumes (lawful : compiler.Lawful)
    (encloses : ∀ mode, ∃ before after, Encloses (compiler.runtime mode) before after)
    (reachable : (databaseSystem D).Reachable start) {inputId : String}
    (input : inputOf compiler request = .ok (some inputId))
    (turned : prepareTurn compiler now request start = .ok (turn, first))
    (ran : prepare compiler now runId request start = .ok (prepared, first))
    {calls : List Call} (run : (databaseSystem D).Run first calls before) {appender : RunId}
    {appended : List (CheckpointId × Bool)} {committed : Store D}
    (committing : appendMessagesOnce request.conversationId appender prepared.baseCheckpointId
      (before.store.chainIdentities request.conversationId prepared.baseCheckpointId) prepared.initialMessages before.store =
      .ok (appended, committed))
    {more : List Call} (run' : (databaseSystem D).Run { before with store := committed } more again)
    (day : (now request.requestContext.timeZone).today = (later request.requestContext.timeZone).today)
    {proposed : CheckpointId} (accepted : proposedBase request again = .ok (proposed, ended))
    (quiet : Quiet ended.store request.conversationId turn) :
    (∃ resumed, prepare compiler later runId' request again = .ok (resumed, ended) ∧
      Resumes ended request.conversationId prepared resumed) ∧
    (∀ (other : RunRequest) (now' : Option String → Time) (turn' : Turn) (database after : Database D),
      inputOf compiler other = inputOf compiler request →
      prepareTurn compiler now' other database = .ok (turn', after) →
      (turn'.eventId = turn.eventId ↔ contentOf compiler now' other = contentOf compiler now request)) ∧
    ∀ (user : UserMessage) (prepended : List String) (text : String) (now' : Option String → Time) (turn' : Turn)
      (database after : Database D),
      request.action = .userMessageAction { userMessage := some user, prependUserMessages := prepended } →
      user.messageId ≠ "" → text ≠ user.text →
      prepareTurn compiler now' (request.withText user prepended text) database = .ok (turn', after) →
      turn'.eventId ≠ turn.eventId := by
  refine ⟨resumes (sound_of_reachable reachable) input turned ran run committing run' day accepted quiet, ?_, ?_⟩
  · exact fun other now' turn' database after input' turned' => events_iff lawful input turned input' turned'
  · intro user prepended text now' turn' database after sent named differs turned' same
    exact differs (events_text lawful encloses sent named input turned turned' same).symm

end Resent

/-! ### Turns that are sent again -/

theorem sampleCompiler_encloses (mode : Mode) :
    ∃ before after, Encloses (sampleCompiler.runtime mode) before after := by
  refine ⟨[.value "OPEN_FILES", .value "SELECTED_CONTEXT", .value "ACTION_CONTEXT", .text "<timestamp>",
    .value "TIMESTAMP", .text "</timestamp>\n<user_query>\n"], [.text "\n</user_query>"], ?_⟩
  constructor
  · rfl
  · exact ⟨by decide, by decide⟩
  · exact ⟨"<timestamp>", by simp, '<', by decide +kernel, by decide +kernel⟩
  · exact ⟨"\n</user_query>", by simp, '<', by decide +kernel, by decide +kernel⟩

/-- The turn of the first preparation. -/
def askedTurn : Turn × Database HistoryDigest :=
  landed (prepareTurn sampleCompiler (sampleNow "9:00") sampleRequest ⟨Store.empty, fun _ _ => none⟩) (by decide +kernel)

/-- The database once the first run was claimed. -/
def claimed : Database HistoryDigest := Call.apply (.operation (.claimRun asked.1 0)) asked.2

/-- The first run commits its initial messages. -/
def committed : List (CheckpointId × Bool) × Store HistoryDigest :=
  landed (appendMessagesOnce ⟨"conversation"⟩ ⟨"first"⟩ asked.1.baseCheckpointId
    (claimed.store.chainIdentities ⟨"conversation"⟩ asked.1.baseCheckpointId) asked.1.initialMessages claimed.store)
    (by decide +kernel)

theorem committed_eq : appendMessagesOnce ⟨"conversation"⟩ ⟨"first"⟩ asked.1.baseCheckpointId
    (claimed.store.chainIdentities ⟨"conversation"⟩ asked.1.baseCheckpointId) asked.1.initialMessages claimed.store =
      .ok (committed.1, committed.2) := landed_eq _

/-- What the first run does further. -/
def furtherCalls : List Call :=
  [.operation (.appendCheckpoint ⟨"conversation"⟩ ⟨"first"⟩ ⟨2⟩ [sampleAnswer]),
    .operation (.finishRun ⟨"first"⟩ .completed none)]

/-- The database behind it. -/
def finished : Database HistoryDigest :=
  furtherCalls.foldl (fun database call => call.apply database) { claimed with store := committed.2 }

/-- The base that is proposed when the turn is sent again. -/
def proposedAgain : CheckpointId × Database HistoryDigest :=
  landed (proposedBase sampleRequest finished) (by decide +kernel)

theorem proposedAgain_eq : proposedBase sampleRequest finished = .ok (proposedAgain.1, proposedAgain.2) := landed_eq _

theorem resent_resumes_answered : ∃ resumed,
    prepare sampleCompiler (sampleNow "9:05") ⟨"second"⟩ sampleRequest finished = .ok (resumed, proposedAgain.2) ∧
      Resumes proposedAgain.2 ⟨"conversation"⟩ asked.1 resumed := by
  have input : inputOf sampleCompiler sampleRequest = .ok (some "cursor:user:turn") := by decide +kernel
  have turned : prepareTurn sampleCompiler (sampleNow "9:00") sampleRequest ⟨Store.empty, fun _ _ => none⟩ =
      .ok (askedTurn.1, asked.2) := turned_of_landed sound_empty asked_eq (by decide +kernel)
  have claims : (databaseSystem HistoryDigest).Run asked.2 [.operation (.claimRun asked.1 0)] claimed :=
    run_foldl [_] asked.2
  have quiet : Quiet proposedAgain.2.store ⟨"conversation"⟩ askedTurn.1 := by
    unfold Quiet
    decide +kernel
  have goes : (databaseSystem HistoryDigest).Run { claimed with store := committed.2 } furtherCalls finished :=
    run_foldl _ _
  have day : (sampleNow "9:00" sampleRequest.requestContext.timeZone).today =
      (sampleNow "9:05" sampleRequest.requestContext.timeZone).today := rfl
  exact (resent_resumes sampleCompiler_lawful sampleCompiler_encloses empty_reachable input turned asked_eq claims
    committed_eq goes day proposedAgain_eq quiet).1

/-! ### Where a request does not go on with itself -/

/-- The database after calls. -/
def behindCalls (calls : List Call) (database : Database HistoryDigest) : Database HistoryDigest :=
  calls.foldl (fun database call => call.apply database) database

/-- The request that asks for a summary. -/
def summaryRequest : RunRequest :=
  sampleRequest.withText ⟨"turn", "", 1, none, "", none, .ok []⟩ [] "/summarize"

/-- Its first preparation. -/
def summary : PreparedRun × Database HistoryDigest :=
  landed (prepare sampleCompiler (sampleNow "9:00") ⟨"first"⟩ summaryRequest ⟨Store.empty, fun _ _ => none⟩)
    (by decide +kernel)

/-- Its preparation after another run. -/
def summaryAgain : PreparedRun × Database HistoryDigest :=
  landed (prepare sampleCompiler (sampleNow "9:05") ⟨"second"⟩ summaryRequest (behindCalls sampleCalls summary.2))
    (by decide +kernel)

theorem summary_moves : ¬ Resumes summaryAgain.2 ⟨"conversation"⟩ summary.1 summaryAgain.1 := by
  intro resumes
  exact absurd resumes.history (by decide +kernel)

/-- The request in a context that the mode of the agent does not show. -/
def debugRequest : RunRequest :=
  { sampleRequest with requestContext := ⟨none, some ⟨"server", "log", "session"⟩, fun _ => ""⟩ }

/-- Its turn. -/
def debugTurn : Turn × Database HistoryDigest :=
  landed (prepareTurn sampleCompiler (sampleNow "9:00") debugRequest ⟨Store.empty, fun _ _ => none⟩) (by decide +kernel)

theorem debug_unseen : debugRequest.requestContext ≠ sampleRequest.requestContext ∧
    debugTurn.1.eventId = askedTurn.1.eventId := by
  constructor
  · intro same
    exact absurd (congrArg RequestContext.debugModeConfig same) nofun
  · decide +kernel

/-- A request context of another's making under the event of a turn. -/
def forgedContext : CanonicalMessage :=
  ⟨"request-context:" ++ askedTurn.1.eventId.getD "", .user, .prompt, .parts [.text "Forged."], none⟩

/-- The calls that import it. -/
def forgingCalls : List Call := [.operation (.importCheckpoint ⟨"conversation"⟩ [forgedContext])]

/-- The preparation after it was imported. -/
def forgedAgain : PreparedRun × Database HistoryDigest :=
  landed (prepare sampleCompiler (sampleNow "9:05") ⟨"second"⟩ sampleRequest
    (behindCalls forgingCalls { claimed with store := committed.2 })) (by decide +kernel)

theorem forged_shown : ¬ Resumes forgedAgain.2 ⟨"conversation"⟩ asked.1 forgedAgain.1 := by
  intro resumes
  exact absurd resumes.history (by decide +kernel)

/-- A request context of an earlier turn. -/
def earlierContext (messageId text : String) : CanonicalMessage :=
  ⟨"request-context:" ++ messageId, .user, .prompt, .parts [.text text], none⟩

/-- The calls of a run that stores one. -/
def contextCalls : List Call :=
  [.operation (.ensureConversation ⟨"conversation"⟩),
    .operation (.claimRun ⟨⟨"zero"⟩, ⟨"conversation"⟩, [], .start, ⟨1⟩⟩ 0),
    .operation (.appendCheckpoint ⟨"conversation"⟩ ⟨"zero"⟩ ⟨1⟩ [earlierContext "earlier" "Context."]),
    .operation (.finishRun ⟨"zero"⟩ .completed none)]

/-- The database behind it. -/
def contextStored : Database HistoryDigest := behindCalls contextCalls ⟨Store.empty, fun _ _ => none⟩

/-- The request with a history that has the context under another id. -/
def renamedRequest : RunRequest :=
  { sampleRequest with
    baseMessages := some [⟨"cursor-root:47DEQpj8HBSa+/TImW+5JCeuQeRkm5NMpJWZG3hSuFU=:0", .system, .prompt,
      .parts [.text "You are an agent."], none⟩, earlierContext "renamed" "Context."] }

/-- Its preparation: the history is the current one. -/
def renamed : PreparedRun × Database HistoryDigest :=
  landed (prepare sampleCompiler (sampleNow "9:00") ⟨"first"⟩ renamedRequest contextStored) (by decide +kernel)

/-- The calls that store the turn, and then another message under the id. -/
def renamedCalls : List Call :=
  [.operation (.claimRun renamed.1 0),
    .operation (.appendMessagesOnce ⟨"conversation"⟩ ⟨"first"⟩ renamed.1.baseCheckpointId [] renamed.1.initialMessages),
    .operation (.importCheckpoint ⟨"conversation"⟩ [earlierContext "renamed" "Another context."])]

theorem renamed_refused : (prepare sampleCompiler (sampleNow "9:05") ⟨"second"⟩ renamedRequest
    (behindCalls renamedCalls renamed.2)).isOk = false := by decide +kernel

/-- Not every request of the user goes on with itself, and not every context makes another event. -/
theorem resent_otherwise :
    (prepare sampleCompiler (sampleNow "9:00") ⟨"first"⟩ summaryRequest ⟨Store.empty, fun _ _ => none⟩ =
        .ok (summary.1, summary.2) ∧ summary.1.initialMessages = [] ∧
      (databaseSystem HistoryDigest).Run summary.2 sampleCalls (behindCalls sampleCalls summary.2) ∧
      prepare sampleCompiler (sampleNow "9:05") ⟨"second"⟩ summaryRequest (behindCalls sampleCalls summary.2) =
        .ok (summaryAgain.1, summaryAgain.2) ∧
      ¬ Resumes summaryAgain.2 ⟨"conversation"⟩ summary.1 summaryAgain.1) ∧
    (debugRequest.requestContext ≠ sampleRequest.requestContext ∧
      prepareTurn sampleCompiler (sampleNow "9:00") debugRequest ⟨Store.empty, fun _ _ => none⟩ =
        .ok (debugTurn.1, debugTurn.2) ∧ debugTurn.1.eventId = askedTurn.1.eventId) ∧
    (appendMessagesOnce ⟨"conversation"⟩ ⟨"first"⟩ asked.1.baseCheckpointId
        (claimed.store.chainIdentities ⟨"conversation"⟩ asked.1.baseCheckpointId) asked.1.initialMessages claimed.store =
          .ok (committed.1, committed.2) ∧
      prepare sampleCompiler (sampleNow "9:05") ⟨"second"⟩ sampleRequest
        (behindCalls forgingCalls { claimed with store := committed.2 }) = .ok (forgedAgain.1, forgedAgain.2) ∧
      ¬ Resumes forgedAgain.2 ⟨"conversation"⟩ asked.1 forgedAgain.1) ∧
    ((databaseSystem HistoryDigest).Reachable contextStored ∧
      prepare sampleCompiler (sampleNow "9:00") ⟨"first"⟩ renamedRequest contextStored = .ok (renamed.1, renamed.2) ∧
      (prepare sampleCompiler (sampleNow "9:05") ⟨"second"⟩ renamedRequest (behindCalls renamedCalls renamed.2)).isOk =
        false) := by
  refine ⟨⟨landed_eq _, ?_, run_foldl _ _, landed_eq _, summary_moves⟩, ⟨debug_unseen.1, landed_eq _, debug_unseen.2⟩,
    ⟨committed_eq, landed_eq _, forged_shown⟩, ?_, landed_eq _, renamed_refused⟩
  · decide +kernel
  · exact reachable_run empty_reachable (run_foldl contextCalls _)

end Byok.Cursor.Compile
