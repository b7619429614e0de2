/-
**What a turn is compiled to.** `server/src/cursor/compile/break_messages.rs`, and `action` of
`server/src/cursor/compile/run.rs`, for the messages of a user and for plans.

The templates, the digest and the encodings below it are those of a `Compiler`; the texts of attachments and of
request contexts come with the request.

* `action`, `executePlan` — what a request asks for.
* `compile`, `compileRequestContext` — its messages, at a time.
* `userEventId` — the identity of a user's turn: what it is compiled to but for the time.
* `text_of_content` — a template that encloses the text keeps it.
-/

import Byok.Model.Run

namespace Byok.Cursor.Compile

open List

/-! ### Requests -/

inductive Mode where
  | agent
  | ask
  | plan
  | debug
  | multitask
  | subagent
  | compaction
deriving DecidableEq, Repr

structure DebugModeConfig where
  serverEndpoint : String
  logPath : String
  sessionId : String
deriving DecidableEq, Repr

/-- A hydrated `RequestContext`: `compiled` is the text that `compile_context` makes of it on a day. -/
structure RequestContext where
  timeZone : Option String
  debugModeConfig : Option DebugModeConfig
  compiled : String → String

/-- `UserMessage`. Of the attachments there are the texts of `open_files` and of `selected_context`, and the parts
that `images::parts` puts behind the text. -/
structure UserMessage where
  messageId : String
  text : String
  mode : Int
  subagentSystemReminder : Option String
  openFiles : String
  selectedContext : Option String
  images : Except Error (List ContentPart)

/-- `UserMessageAction`: the prepended messages by their texts. -/
structure UserMessageAction where
  userMessage : Option UserMessage
  prependUserMessages : List String

structure ExecutePlanAction where
  executionMode : Int
  planId : Option String
  kickoffMessageId : Option String
  planFileContent : Option String
  plan : Option String
  planFileUri : Option String
  planFilePath : Option String

/-- The actions of a turn of the user. -/
inductive RequestAction where
  | userMessageAction (action : UserMessageAction)
  | executePlanAction (action : ExecutePlanAction)

structure Time where
  timestamp : String
  today : String
deriving DecidableEq, Repr

/-- A piece of a template. -/
inductive TemplatePart where
  | text (text : String)
  | value (name : String)
deriving DecidableEq, Repr

/-- The templates of the modes, and what is used of other code: the digest of a text, the JSON text of a pair of
contents, and the encoding of a message of the user. -/
structure Compiler where
  runtime : Mode → List TemplatePart
  digest : String → String
  toVec : Option MessageContent × MessageContent → String
  encodeToVec : UserMessage → String

/-- The digest does not collide, and the JSON text of contents of parts determines them. -/
structure Compiler.Lawful (compiler : Compiler) : Prop where
  digest : Function.Injective compiler.digest
  toVec : ∀ {projected projected' : Option (List ContentPart)} {parts parts' : List ContentPart},
    compiler.toVec (projected.map .parts, .parts parts) = compiler.toVec (projected'.map .parts, .parts parts') →
      projected = projected' ∧ parts = parts'

/-- `ActionProjection`, without the field of background completions. -/
structure ActionProjection where
  mode : Int
  turnUser : UserMessage
  actionContext : String
  eventId : Option String
  inputId : Option String
  compacting : Bool

variable (compiler : Compiler)

def syntheticMessageId (user : UserMessage) : String :=
  "synthetic:" ++ compiler.digest (compiler.encodeToVec { user with messageId := "" })

def executePlan (action : ExecutePlanAction) : Except Error ActionProjection :=
  match (action.planFileContent.or action.plan).filter (trim · ≠ "") with
  | none => .error (.protocol "ExecutePlan is missing plan content")
  | some plan =>
    let source := (action.planFileUri.or action.planFilePath).filter (· ≠ "")
    let actionContext :=
      match source with
      | some source =>
        "<approved_plan>\n<plan_file>" ++ source ++ "</plan_file>\n" ++ plan ++ "\n</approved_plan>"
      | none => "<approved_plan>\n" ++ plan ++ "\n</approved_plan>"
    let identity := compiler.digest (toString action.executionMode ++ "\x00" ++ action.planId.getD "" ++ "\x00" ++
      action.kickoffMessageId.getD "" ++ "\x00" ++ source.getD "" ++ "\x00" ++ plan)
    let eventId := "execute-plan:" ++ identity
    .ok
      { mode := action.executionMode
        turnUser :=
          { messageId := eventId
            text := "Execute the approved plan."
            mode := action.executionMode
            subagentSystemReminder := none
            openFiles := ""
            selectedContext := none
            images := .ok [] }
        actionContext
        eventId := some eventId
        inputId := none
        compacting := false }

/-- `action`. `conversationMode` is the mode that the conversation's state has. -/
def action (conversationMode : Option Int) : RequestAction → Except Error ActionProjection
  | .userMessageAction action =>
    match action.userMessage with
    | none => .error (.protocol "Cursor user message action has no UserMessage")
    | some user =>
      let mode := if user.mode = 0 then conversationMode.getD user.mode else user.mode
      let turnUser :=
        if user.messageId = "" then { user with messageId := syntheticMessageId compiler user } else user
      if trim turnUser.text = "/summarize" then
        .ok
          { mode
            turnUser
            actionContext := ""
            eventId := none
            inputId := none
            compacting := true }
      else
        let context := (action.prependUserMessages.map trim).filter (· ≠ "") ++
          turnUser.subagentSystemReminder.toList.filter (· ≠ "")
        .ok
          { mode
            turnUser
            actionContext := "\n\n".intercalate context
            eventId := none
            inputId := some ("cursor:user:" ++ turnUser.messageId)
            compacting := false }
  | .executePlanAction action => executePlan compiler action

def modeFromProto (mode : Int) : Except Error Mode :=
  if mode = 1 then .ok .agent
  else if mode = 2 then .ok .ask
  else if mode = 3 then .ok .plan
  else if mode = 4 then .ok .debug
  else if mode = 7 then .ok .multitask
  else if mode = 0 ∨ mode = 5 ∨ mode = 6 ∨ mode = 8 then .ok .agent
  else .error (.protocol ("unknown Cursor agent mode: " ++ toString mode))

/-! ### Messages -/

/-- The text of a piece. -/
def renderPart (values : String → Option String) : TemplatePart → Except Error String
  | .text text => .ok text
  | .value name =>
    match values name with
    | some value => .ok value
    | none => .error (.protocol ("runtime template value is missing: " ++ name))

def render (template : List TemplatePart) (values : String → Option String) : Except Error String :=
  (template.mapM (renderPart values)).map fun parts => trim (String.join parts)

/-- `section`. -/
def sectionOf (value : String) : String :=
  if trim value = "" then "" else trim value ++ "\n\n"

/-- The `values` of `compile_with_timestamp`. -/
def runtimeValues (user : UserMessage) (requestContext : RequestContext) (actionContext timestamp : String)
    (name : String) : Option String :=
  if name = "OPEN_FILES" then some (sectionOf user.openFiles)
  else if name = "SELECTED_CONTEXT" then
    some (sectionOf (((user.selectedContext.filter (· ≠ "")).map fun value =>
      "<selected_context>\n" ++ value ++ "\n</selected_context>").getD ""))
  else if name = "ACTION_CONTEXT" then some (sectionOf actionContext)
  else if name = "TIMESTAMP" then some timestamp
  else if name = "USER_QUERY" then some user.text
  else if name = "DEBUG_SERVER_ENDPOINT" then some (requestContext.debugModeConfig.elim "" (·.serverEndpoint))
  else if name = "DEBUG_LOG_PATH" then some (requestContext.debugModeConfig.elim "" (·.logPath))
  else if name = "DEBUG_SESSION_ID" then some (requestContext.debugModeConfig.elim "" (·.sessionId))
  else none

def message (eventId : String) (user : UserMessage) (text : String) : Except Error CanonicalMessage :=
  user.images.map fun images =>
    { messageId := "runtime:" ++ eventId
      role := .user
      origin := .runtime
      content := .parts (.text text :: images)
      runtimeEventId := some eventId }

def compileWithTimestamp (eventId : String) (mode : Mode) (user : UserMessage) (requestContext : RequestContext)
    (actionContext timestamp : String) : Except Error CanonicalMessage := do
  let text ← render (compiler.runtime mode) (runtimeValues user requestContext actionContext timestamp)
  message eventId user text

/-- `compile`. `now` is `Time::now`, by the name of a time zone. -/
def compile (now : Option String → Time) (eventId : String) (mode : Mode) (user : UserMessage)
    (requestContext : RequestContext) (actionContext : String) : Except Error CanonicalMessage :=
  compileWithTimestamp compiler eventId mode user requestContext actionContext (now requestContext.timeZone).timestamp

def userEventId (inputId : String) (mode : Mode) (user : UserMessage) (requestContext : RequestContext)
    (actionContext : String) (projectedRequestContext : Option MessageContent) : Except Error String :=
  (compileWithTimestamp compiler "identity" mode user requestContext actionContext "").map fun runtime =>
    inputId ++ ":" ++ compiler.digest (compiler.toVec (projectedRequestContext, runtime.content))

def shouldProjectRequestContext (history : List CanonicalMessage) (current : CanonicalMessage) : Bool :=
  match history.reverse.find? fun message => startsWith message.messageId "request-context:" with
  | none => true
  | some previous => decide (previous.content ≠ current.content)

def compileRequestContext (now : Option String → Time) (eventId : String) (requestContext : RequestContext)
    (history : List CanonicalMessage) : Option CanonicalMessage :=
  let text := requestContext.compiled (now requestContext.timeZone).today
  if text = "" then none
  else
    let message : CanonicalMessage :=
      { messageId := "request-context:" ++ eventId
        role := .user
        origin := .prompt
        content := .parts [.text text]
        runtimeEventId := none }
    if shouldProjectRequestContext history message then some message else none

/-! ### What a message is made of -/

section Messages

variable {compiler} {now : Option String → Time} {eventId inputId actionContext timestamp : String} {mode : Mode}
  {user : UserMessage} {requestContext : RequestContext} {history : List CanonicalMessage}

theorem compileWithTimestamp_ok {made : CanonicalMessage}
    (compiled : compileWithTimestamp compiler eventId mode user requestContext actionContext timestamp = .ok made) :
    ∃ text images, render (compiler.runtime mode) (runtimeValues user requestContext actionContext timestamp) = .ok text ∧
      user.images = .ok images ∧ made =
        { messageId := "runtime:" ++ eventId
          role := .user
          origin := .runtime
          content := .parts (.text text :: images)
          runtimeEventId := some eventId } := by
  unfold compileWithTimestamp at compiled
  cases rendered : render (compiler.runtime mode) (runtimeValues user requestContext actionContext timestamp) with
  | error error => simp [rendered, bind, Except.bind] at compiled
  | ok text =>
    cases pictures : user.images with
    | error error => simp [rendered, message, pictures, bind, Except.bind, Except.map] at compiled
    | ok images =>
      simp only [rendered, message, pictures, bind, Except.bind, Except.map, Except.ok.injEq] at compiled
      exact ⟨text, images, rfl, rfl, compiled.symm⟩

theorem compileRequestContext_some {made : CanonicalMessage}
    (compiled : compileRequestContext now eventId requestContext history = some made) : made =
      { messageId := "request-context:" ++ eventId
        role := .user
        origin := .prompt
        content := .parts [.text (requestContext.compiled (now requestContext.timeZone).today)]
        runtimeEventId := none } := by
  unfold compileRequestContext at compiled
  dsimp only at compiled
  split at compiled
  · cases compiled
  · split at compiled
    · exact (Option.some.inj compiled).symm
    · cases compiled

theorem compileRequestContext_parts (now : Option String → Time) (eventId : String) (requestContext : RequestContext)
    (history : List CanonicalMessage) : ∃ projected : Option (List ContentPart),
      (compileRequestContext now eventId requestContext history).map (·.content) = projected.map .parts := by
  cases compiled : compileRequestContext now eventId requestContext history with
  | none => exact ⟨none, rfl⟩
  | some made => exact ⟨some _, by rw [compileRequestContext_some compiled]; rfl⟩

theorem compileRequestContext_day {later : Option String → Time}
    (day : (now requestContext.timeZone).today = (later requestContext.timeZone).today) :
    compileRequestContext later eventId requestContext history = compileRequestContext now eventId requestContext history := by
  simp only [compileRequestContext, day]

end Messages

/-! ### The text of a turn -/

section Text

variable {compiler} {mode : Mode} {user : UserMessage} {requestContext : RequestContext} {actionContext : String}

/-- A template that has the query once, between pieces that are not blank. -/
structure Encloses (template : List TemplatePart) (before after : List TemplatePart) : Prop where
  pieces : template = before ++ .value "USER_QUERY" :: after
  once : .value "USER_QUERY" ∉ before ∧ .value "USER_QUERY" ∉ after
  front : ∃ text, .text text ∈ before ∧ ∃ c ∈ text.toList, isWhitespace c = false
  back : ∃ text, .text text ∈ after ∧ ∃ c ∈ text.toList, isWhitespace c = false

theorem render_enclosed {before after : List TemplatePart} {values : String → Option String} {query text : String}
    (has : values "USER_QUERY" = some query)
    (rendered : render (before ++ .value "USER_QUERY" :: after) values = .ok text) :
    ∃ front back, before.mapM (renderPart values) = .ok front ∧ after.mapM (renderPart values) = .ok back ∧
      text = trim (String.ofList ((String.join front).toList ++ query.toList ++ (String.join back).toList)) := by
  have own : renderPart values (.value "USER_QUERY") = .ok query := by simp only [renderPart, has]
  simp only [render, mapM_append, mapM_cons, own] at rendered
  cases first : before.mapM (renderPart values) with
  | error error => simp [first, bind, Except.bind, Except.map] at rendered
  | ok front =>
    cases last : after.mapM (renderPart values) with
    | error error => simp [first, last, bind, Except.bind, Except.map] at rendered
    | ok back =>
      refine ⟨front, back, rfl, rfl, ?_⟩
      simp only [first, last, bind, Except.bind, pure, Except.pure, Except.map, Except.ok.injEq] at rendered
      rw [← rendered]
      congr 1
      apply String.toList_inj.mp
      simp [String.join_append, String.join_cons, append_assoc]

theorem mem_rendered {template : List TemplatePart} {values : String → Option String} {parts : List String} {text : String}
    (rendered : template.mapM (renderPart values) = .ok parts) (listed : .text text ∈ template) : text ∈ parts := by
  induction template generalizing parts with
  | nil => cases listed
  | cons part rest ih =>
    rw [mapM_cons] at rendered
    cases first : renderPart values part with
    | error error => simp [first, bind, Except.bind] at rendered
    | ok shown =>
      cases more : rest.mapM (renderPart values) with
      | error error => simp [first, more, bind, Except.bind] at rendered
      | ok others =>
        simp only [first, more, bind, Except.bind, pure, Except.pure, Except.ok.injEq] at rendered
        rw [← rendered]
        rcases mem_cons.mp listed with rfl | later
        · obtain rfl := Except.ok.inj first
          exact mem_cons_self
        · exact mem_cons_of_mem _ (ih more later)

theorem rendered_alike {template : List TemplatePart} {values other : String → Option String}
    (free : .value "USER_QUERY" ∉ template) (alike : ∀ name, name ≠ "USER_QUERY" → values name = other name) :
    template.mapM (renderPart values) = template.mapM (renderPart other) := by
  induction template with
  | nil => rfl
  | cons part rest ih =>
    rw [mem_cons, not_or] at free
    have own : renderPart values part = renderPart other part := by
      cases part with
      | text text => rfl
      | value name =>
        have differs : name ≠ "USER_QUERY" := fun equal => free.1 (by rw [equal])
        simp only [renderPart, alike name differs]
    rw [mapM_cons, mapM_cons, own, ih free.2]

theorem solid_join {parts : List String} {text : String} (listed : text ∈ parts)
    (solid : ∃ c ∈ text.toList, isWhitespace c = false) : ∃ c ∈ (String.join parts).toList, isWhitespace c = false := by
  obtain ⟨c, member, solid⟩ := solid
  refine ⟨c, ?_, solid⟩
  induction parts with
  | nil => cases listed
  | cons part rest ih =>
    rw [String.join_cons, String.toList_append, mem_append]
    rcases mem_cons.mp listed with rfl | later
    · exact .inl member
    · exact .inr (ih later)

/-- **Turns with different texts are compiled to different messages**, where the template encloses the text. -/
theorem text_of_content {before after : List TemplatePart} (encloses : Encloses (compiler.runtime mode) before after)
    {other : String} {runtime runtime' : CanonicalMessage}
    (compiled : compileWithTimestamp compiler "identity" mode user requestContext actionContext "" = .ok runtime)
    (compiled' : compileWithTimestamp compiler "identity" mode { user with text := other } requestContext actionContext "" =
      .ok runtime') (contents : runtime.content = runtime'.content) : user.text = other := by
  obtain ⟨text, images, rendered, -, rfl⟩ := compileWithTimestamp_ok compiled
  obtain ⟨text', images', rendered', -, rfl⟩ := compileWithTimestamp_ok compiled'
  simp only [MessageContent.parts.injEq, List.cons.injEq, ContentPart.text.injEq] at contents
  rw [encloses.pieces] at rendered rendered'
  have query (user : UserMessage) :
      runtimeValues user requestContext actionContext "" "USER_QUERY" = some user.text := by
    simp [runtimeValues]
  obtain ⟨front, back, first, last, rfl⟩ := render_enclosed (query user) rendered
  obtain ⟨front', back', first', last', rfl⟩ := render_enclosed (query { user with text := other }) rendered'
  have alike : ∀ name, name ≠ "USER_QUERY" → runtimeValues user requestContext actionContext "" name =
      runtimeValues { user with text := other } requestContext actionContext "" name := by
    intro name differs
    simp only [runtimeValues, differs, if_false]
  rw [← rendered_alike encloses.once.1 alike, first] at first'
  rw [← rendered_alike encloses.once.2 alike, last] at last'
  obtain rfl := Except.ok.inj first'
  obtain rfl := Except.ok.inj last'
  obtain ⟨opening, openingListed, openingSolid⟩ := encloses.front
  obtain ⟨closing, closingListed, closingSolid⟩ := encloses.back
  have solidFront := solid_join (mem_rendered first openingListed) openingSolid
  have solidBack := solid_join (mem_rendered last closingListed) closingSolid
  have lists := congrArg String.toList contents.1
  rw [trim_between _ solidFront solidBack, trim_between _ solidFront solidBack, append_cancel_right_eq,
    append_cancel_left_eq] at lists
  exact String.toList_inj.mp lists

end Text

/-! ### A compiler -/

/-- The code of a list: each item behind a mark, and an end. -/
def codeList {α : Type} (code : α → List Char) (items : List α) : List Char :=
  items.flatMap (fun item => '+' :: code item) ++ ['.']

/-- Codes can be told apart whatever is behind them. -/
def Cancels {α : Type} (code : α → List Char) : Prop :=
  ∀ ⦃first second : α⦄ ⦃rest others : List Char⦄, code first ++ rest = code second ++ others →
    first = second ∧ rest = others

theorem Cancels.codeList {α : Type} {code : α → List Char} (cancels : Cancels code) : Cancels (codeList code) := by
  intro items
  induction items with
  | nil =>
    intro items' rest others same
    cases items' with
    | nil => exact ⟨rfl, by simpa [Compile.codeList] using same⟩
    | cons item items' => simp [Compile.codeList] at same
  | cons item items ih =>
    intro items' rest others same
    cases items' with
    | nil => simp [Compile.codeList] at same
    | cons item' items' =>
      simp only [Compile.codeList, flatMap_cons, cons_append, append_assoc, List.cons.injEq, true_and]
        at same
      obtain ⟨rfl, behind⟩ := cancels same
      obtain ⟨rfl, rfl⟩ := @ih items' rest others (by simpa [Compile.codeList] using behind)
      exact ⟨rfl, rfl⟩

/-- The code of a text. -/
def codeText (text : String) : List Char := codeList (fun c => [c]) text.toList

theorem cancels_codeText : Cancels codeText := by
  intro text text' rest others same
  have single : Cancels fun c : Char => [c] := fun _ _ _ _ same => List.cons.inj same
  obtain ⟨equal, rfl⟩ := single.codeList same
  exact ⟨String.toList_inj.mp equal, rfl⟩

/-- The code of a byte. -/
def codeByte (byte : UInt8) : List Char := codeList (fun _ : Unit => []) (List.replicate byte.toNat ())

theorem cancels_codeByte : Cancels codeByte := by
  intro byte byte' rest others same
  have empty : Cancels fun _ : Unit => [] := fun _ _ _ _ same => ⟨rfl, same⟩
  obtain ⟨equal, rfl⟩ := empty.codeList same
  exact ⟨UInt8.toNat_inj.mp (by simpa using congrArg List.length equal), rfl⟩

/-- The code of a part. -/
def codePart : ContentPart → List Char
  | .text text => 't' :: codeText text
  | .image mimeType data => 'i' :: (codeText mimeType ++ codeList codeByte data)

theorem cancels_codePart : Cancels codePart := by
  intro part part' rest others same
  cases part with
  | text text =>
    cases part' with
    | text text' =>
      obtain ⟨rfl, rfl⟩ := cancels_codeText (List.cons.inj same).2
      exact ⟨rfl, rfl⟩
    | image mimeType data => simp [codePart] at same
  | image mimeType data =>
    cases part' with
    | text text => simp [codePart] at same
    | image mimeType' data' =>
      simp only [codePart, cons_append, append_assoc, List.cons.injEq, true_and] at same
      obtain ⟨rfl, behind⟩ := cancels_codeText same
      obtain ⟨rfl, rfl⟩ := cancels_codeByte.codeList behind
      exact ⟨rfl, rfl⟩

/-- The code of a content of parts. -/
def codeContent : MessageContent → List Char
  | .parts parts => codeList codePart parts
  | _ => []

/-- A compiler whose digest of a text is the text. -/
def sampleCompiler : Compiler where
  runtime _ := [.value "OPEN_FILES", .value "SELECTED_CONTEXT", .value "ACTION_CONTEXT", .text "<timestamp>",
    .value "TIMESTAMP", .text "</timestamp>\n<user_query>\n", .value "USER_QUERY", .text "\n</user_query>"]
  digest text := text
  toVec pair := String.ofList (codeList codeContent pair.1.toList ++ codeContent pair.2)
  encodeToVec user := user.text

theorem sampleCompiler_lawful : sampleCompiler.Lawful where
  digest _ _ := id
  toVec {projected projected' parts parts'} same := by
    have parted : Cancels fun parts => codeContent (.parts parts) := cancels_codePart.codeList
    have lists (context : Option (List ContentPart)) : codeList codeContent (context.map MessageContent.parts).toList =
        codeList (fun parts => codeContent (.parts parts)) context.toList := by cases context <;> rfl
    have codes := String.ofList_injective same
    rw [lists, lists] at codes
    obtain ⟨contexts, codes⟩ := parted.codeList codes
    obtain ⟨rfl, -⟩ := @parted parts parts' [] [] (by simpa using codes)
    refine ⟨?_, rfl⟩
    cases projected <;> cases projected' <;> simp_all

end Byok.Cursor.Compile
