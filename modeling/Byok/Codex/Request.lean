/-
**Requests of Codex, for the protocols of others.** `server/src/codex/bridge/request.rs`.

* `validateToolHistory` — every call is answered before the next message.
* `Format`, `translate` — the loop that both formats have: a turn is gathered and flushed.
* `chatMessages`, `anthropicMessages` — the messages of a request.

A message, a block or a piece of reasoning that waits also carries what it is and the place of the item that
it comes from (`Mark`). Nothing reads a mark: what is sent is the value beside it, which says what that item does
(`ChatCarries`, `BlockCarries`).
-/

import Byok.Library.Adjacent
import Byok.Library.Fallible
import Byok.Model.Message

namespace Byok.Codex

open Library

/-! ### What comes from elsewhere -/

/-- `base64`, `serde_json`, `{:?}`, and the names of `ToolMap::upstream_name`. -/
structure Bridge where
  base64Decode : String → Option (List UInt8)
  fromSlice : List UInt8 → Option Value
  fromStr : String → Option Value
  toJson : Value → String
  debug : Option String → String
  upstreamName : String → Option String → String

inductive UpstreamFormat where
  | chat
  | anthropic
deriving DecidableEq, Repr

/-- What a part of the messages is, and the place of the item that it comes from. -/
inductive Mark where
  | user (origin : Nat)
  | text (origin : Nat)
  | reasoning (origin : Nat)
  | call (origin : Nat) (callId : String)
  | result (origin : Nat) (callId : String)
deriving DecidableEq, Repr

/-! ### Items -/

/-- `value.get(key).and_then(Value::as_str)`. -/
def str (value : Value) (key : String) : Option String := (value.get key).bind Value.asStr

/-- Text that is not blank. -/
def visible (text : String) : Bool := trim text != ""

def itemType (item : Value) : String := (str item "type").getD "message"

def isCallType (kind : String) : Bool := kind == "function_call" || kind == "custom_tool_call"

def isOutputType (kind : String) : Bool := kind == "function_call_output" || kind == "custom_tool_call_output"

def requiredStr (item : Value) (key : String) : Except Error String :=
  match ((str item key).map trim).filter (· != "") with
  | some text => .ok text
  | none => .error (.protocol ("Codex item is missing " ++ key))

def createThreadInput (item : Value) : Option String :=
  if isOutputType (itemType item) && !(str item "call_id").any visible &&
      str item "name" == some "create_thread" && str item "namespace" == some "codex_app" then
    (str item "output").filter visible
  else none

/-! ### Texts and images -/

inductive Part where
  | text (text : String)
  | image (part : Value)

/-- One part of `content_parts`. -/
def contentPart (bridge : Bridge) (part : Value) : Except Error Part :=
  if str part "type" = some "text" ∨ str part "type" = some "input_text" ∨
      str part "type" = some "output_text" then
    .ok (.text ((str part "text").getD ""))
  else if str part "type" = some "input_image" then .ok (.image part)
  else .error (.protocol ("unsupported Codex content part: " ++ bridge.debug (str part "type")))

def contentParts (bridge : Bridge) (item : Value) : Except Error (List Part) :=
  match item.get "content" with
  | some (.string text) => .ok [.text text]
  | some (.array parts) => parts.mapM (contentPart bridge)
  | _ => .error (.protocol "Codex message content must be text or an array")

/-- One part of `message_text`. -/
def partText : Part → Except Error String
  | .text text => .ok text
  | .image _ => .error (.protocol "Codex system/developer/assistant messages cannot carry images")

def messageText (bridge : Bridge) (item : Value) : Except Error String := do
  let parts ← contentParts bridge item
  let texts ← parts.mapM partText
  .ok ("\n\n".intercalate texts)

/-- `str::split_once`, over the characters already seen. -/
def splitOnce (pattern : List Char) (seen : List Char) : List Char → Option (List Char × List Char)
  | [] => none
  | character :: text =>
    if pattern.isPrefixOf (character :: text) then
      some (seen.reverse, (character :: text).drop pattern.length)
    else splitOnce pattern (character :: seen) text

def imageUrl (part : Value) : Except Error String :=
  match ((part.get "image_url").bind fun value => value.asStr.or (str value "url")).filter visible with
  | some url => .ok url
  | none => .error (.protocol "Codex input_image requires an image_url")

def textBlock (text : String) : Value := .object [("type", .string "text"), ("text", .string text)]

def chatImagePart (part : Value) : Except Error Value := do
  let url ← imageUrl part
  let detail := ((str part "detail").map fun detail => ("detail", Value.string detail)).toList
  .ok (.object [("type", .string "image_url"), ("image_url", .object (("url", .string url) :: detail))])

/-- The source of an `image_block`. -/
def imageSource (url : String) : Except Error Value :=
  match stripPrefix url "data:" with
  | some data =>
    match splitOnce ";base64,".toList [] data.toList with
    | some (mediaType, payload) => .ok (.object [("type", .string "base64"),
        ("media_type", .string (String.ofList mediaType)), ("data", .string (String.ofList payload))])
    | none => .error (.protocol "Codex input_image data URL must be base64 encoded")
  | none => .ok (.object [("type", .string "url"), ("url", .string url)])

def imageBlock (part : Value) : Except Error Value := do
  let url ← imageUrl part
  let source ← imageSource url
  .ok (.object [("type", .string "image"), ("source", source)])

/-- One block of `chat_content`. -/
def chatBlock : Part → Except Error Value
  | .text text => .ok (textBlock text)
  | .image part => chatImagePart part

def Part.isText : Part → Bool
  | .text _ => true
  | .image _ => false

def chatContent (bridge : Bridge) (item : Value) : Except Error Value := do
  let parts ← contentParts bridge item
  let blocks ← parts.mapM chatBlock
  .ok (if parts.all Part.isText then
      .string ("\n\n".intercalate (blocks.filterMap fun block => str block "text"))
    else .array blocks)

/-- One part of `anthropic_blocks`: blank texts are left out. -/
def anthropicBlock : Part → Except Error (Option Value)
  | .text text => .ok (if visible text then some (textBlock text) else none)
  | .image part => (imageBlock part).map some

def anthropicBlocks (bridge : Bridge) (item : Value) : Except Error (List Value) := do
  let parts ← contentParts bridge item
  let blocks ← parts.mapM anthropicBlock
  .ok (blocks.filterMap id)

def toolOutput (bridge : Bridge) (output : Value) (anthropic : Bool) : Except Error Value :=
  match output with
  | .array items =>
    if anthropic then (anthropicBlocks bridge (.object [("content", .array items)])).map Value.array
    else chatContent bridge (.object [("content", .array items)])
  | .string text => .ok (.string text)
  | other => .ok (.string (bridge.toJson other))

/-! ### Reasoning -/

/-- `PREFIX`. -/
def replayPrefix : String := "haxsd-codex-replay-v1:"

def maxEncoded : Nat := 4 * 1024 * 1024

def UpstreamFormat.protocol : UpstreamFormat → String
  | .chat => "chat"
  | .anthropic => "anthropic"

/-- What `decode` makes of a payload of its own. -/
def decodePayload (payload : Value) (format : UpstreamFormat) (owner : String) : Except Error (Option Value) :=
  if str payload "protocol" ≠ some format.protocol ∨ str payload "owner" ≠ some owner then .ok none
  else match payload.get "state" with
    | some state => .ok (some state)
    | none => .error (.protocol "Codex reasoning state carries no payload")

def decode (bridge : Bridge) (item : Value) (format : UpstreamFormat) (owner : String) :
    Except Error (Option Value) :=
  match ((str item "encrypted_content").map trim).filter (· != "") with
  | none => .ok none
  | some raw =>
    if raw.utf8ByteSize > maxEncoded then
      .error (.protocol "Codex reasoning state is too large to replay")
    else match stripPrefix raw replayPrefix with
      | none => .ok none
      | some encoded =>
        match bridge.base64Decode encoded with
        | none => .error (.protocol
            "Codex reasoning state is not decodable; start a new Codex conversation with this model")
        | some bytes =>
          match bridge.fromSlice bytes with
          | none => .error (.protocol
              "Codex reasoning state is not valid JSON; start a new Codex conversation with this model")
          | some payload => decodePayload payload format owner

/-- A text of a summary. -/
def summaryPart (part : Value) : Option String := ((str part "text").map trim).filter (· != "")

def summaryText (item : Value) : Option String :=
  let listed := ["summary", "content"].flatMap fun key =>
    (((item.get key).bind Value.asArray).getD []).filterMap summaryPart
  let parts := listed ++ (summaryPart item).toList
  if parts = [] then none else some ("\n\n".intercalate parts)

def chatReasoningText (bridge : Bridge) (item : Value) (owner : String) : Except Error (Option String) := do
  let state ← decode bridge item .chat owner
  match state with
  | some (.string text) => .ok (if visible text then some (trim text) else none)
  | some other => .error (.protocol ("Codex chat reasoning state must be text, got " ++ bridge.toJson other))
  | none => .ok (summaryText item)

def anthropicThinkingBlocks (bridge : Bridge) (item : Value) (owner : String) : Except Error (List Value) := do
  let state ← decode bridge item .anthropic owner
  match state with
  | some (.array blocks) => .ok blocks
  | some other => .error (.protocol
      ("Codex Anthropic reasoning state must be a list of thinking blocks, got " ++ bridge.toJson other))
  | none => .ok []

/-! ### The history of tools -/

/-- What the loop of `validate_tool_history` keeps: calls without a result, under their kind, and all calls. -/
structure ToolHistory where
  pending : List (String × String) := []
  seen : List String := []

def missingBeforeMessage : Error :=
  .protocol "tool calls are missing results before the next message"

/-- The kind of the calls that an output answers. -/
def expectedKind (kind : String) : String :=
  if kind = "function_call_output" then "function_call" else "custom_tool_call"

/-- A result in `validate_tool_history`. -/
def ToolHistory.take (history : ToolHistory) (item : Value) (callId : String) : Except Error ToolHistory :=
  if (history.pending.find? (·.1 = callId)).map (·.2) ≠ some (expectedKind (itemType item)) then
    .error (.protocol "tool result has no matching call in Codex history")
  else if (item.get "output").isNone then .error (.protocol "tool result is missing output")
  else .ok ⟨history.pending.filter (·.1 ≠ callId), history.seen⟩

/-- One item of `validate_tool_history`. -/
def ToolHistory.step (history : ToolHistory) (item : Value) : Except Error ToolHistory :=
  if (createThreadInput item).isSome then
    if history.pending ≠ [] then .error missingBeforeMessage else .ok history
  else if isCallType (itemType item) then do
    let callId ← requiredStr item "call_id"
    if callId ∈ history.seen then .error (.protocol "duplicate call_id in Codex history")
    else .ok ⟨(callId, itemType item) :: history.pending, callId :: history.seen⟩
  else if itemType item = "agent_message" then
    .error (.protocol ("this conversation contains Codex subagent messages (agent_message) whose encrypted " ++
      "payload can only be replayed to an OpenAI Responses model; switch back to the original model or " ++
      "start a new conversation"))
  else if isOutputType (itemType item) then do
    let callId ← requiredStr item "call_id"
    history.take item callId
  else if itemType item = "message" ∧ history.pending ≠ [] ∧
      ¬ (str item "role" = some "system" ∨ str item "role" = some "developer") then
    .error missingBeforeMessage
  else .ok history

def validateToolHistory (items : List Value) : Except Error Unit := do
  let history ← items.foldlM ToolHistory.step {}
  if history.pending ≠ [] then .error (.protocol
    "tool calls are missing results; send a complete history or start a new conversation")
  else .ok ()

/-! ### Turns -/

structure Call where
  origin : Nat
  callId : String
  name : String
  arguments : String
deriving DecidableEq, Repr

/-- A result, as `push_tool_result` keeps it. -/
structure ToolOutput where
  origin : Nat
  callId : String
  output : Value

structure Turn where
  text : Option (Nat × String) := none
  reasoningText : Option String := none
  calls : List Call := []
  results : List ToolOutput := []

/-- The arguments of a call. -/
def callArguments (bridge : Bridge) (item : Value) : Except Error String :=
  if itemType item = "custom_tool_call" then
    match str item "input" with
    | some input => .ok (bridge.toJson (.object [("input", .string input)]))
    | none => .error (.protocol "Codex custom_tool_call requires a string input")
  else requiredStr item "arguments"

def historyCall (bridge : Bridge) (origin : Nat) (item : Value) : Except Error Call := do
  let name ← requiredStr item "name"
  let callId ← requiredStr item "call_id"
  let arguments ← callArguments bridge item
  .ok ⟨origin, callId, bridge.upstreamName name (str item "namespace"), arguments⟩

def pushToolResult (turn : Turn) (origin : Nat) (item : Value) : Except Error Turn := do
  let callId ← requiredStr item "call_id"
  .ok { turn with results := turn.results ++ [⟨origin, callId, (item.get "output").getD .null⟩] }

/-- The first result of a call. -/
def Turn.result? (turn : Turn) (call : Call) : Option ToolOutput :=
  turn.results.find? fun result => result.callId = call.callId

/-! ### The loop -/

/-- What the loop of `chat_body` and of `anthropic_body` keeps. -/
structure Translation (μ π : Type) where
  messages : List μ
  turn : Turn
  pending : π

/-- What the two formats do each in its own way. -/
structure Format (μ π : Type) where
  thread : List μ → Nat → String → List μ
  user : List μ → Nat → Value → Except Error (List μ)
  reasoning : π → Nat → Value → Except Error π
  callReasoning : Turn → Value → Turn
  flush : List μ → Turn → π → Except Error (List μ × π)

namespace Format

variable {μ π : Type} (format : Format μ π) (bridge : Bridge)

/-- `flush_chat` and `flush_anthropic` take the turn. -/
def flushed (state : Translation μ π) : Except Error (Translation μ π) := do
  let (messages, pending) ← format.flush state.messages state.turn state.pending
  .ok ⟨messages, {}, pending⟩

/-- A message of the history. -/
def message (state : Translation μ π) (origin : Nat) (item : Value) : Except Error (Translation μ π) :=
  match str item "role" with
  | some role =>
    if role = "system" ∨ role = "developer" then .ok state
    else if role = "user" then do
      let state ← format.flushed state
      let messages ← format.user state.messages origin item
      .ok { state with messages }
    else if role = "assistant" then do
      let state ← format.flushed state
      let text ← messageText bridge item
      .ok (if visible text then { state with turn := { state.turn with text := some (origin, text) } } else state)
    else .error (.protocol ("unsupported Codex message role: " ++ bridge.debug (some role)))
  | none => .error (.protocol ("unsupported Codex message role: " ++ bridge.debug none))

/-- One item of the history. -/
def step (state : Translation μ π) (entry : Value × Nat) : Except Error (Translation μ π) :=
  let (item, origin) := entry
  match createThreadInput item with
  | some text => do
    let state ← format.flushed state
    .ok { state with messages := format.thread state.messages origin text }
  | none =>
    if itemType item = "message" then format.message bridge state origin item
    else if itemType item = "reasoning" then do
      let pending ← format.reasoning state.pending origin item
      .ok { state with pending }
    else if isCallType (itemType item) then do
      let call ← historyCall bridge origin item
      let turn := format.callReasoning state.turn item
      .ok { state with turn := { turn with calls := turn.calls ++ [call] } }
    else if isOutputType (itemType item) then do
      let turn ← pushToolResult state.turn origin item
      .ok { state with turn }
    else .error (.protocol ("unsupported Codex input item: " ++ itemType item))

/-- The loop over the history, and the flush behind it. -/
def translate (state : Translation μ π) (items : List Value) : Except Error (Translation μ π) := do
  let state ← items.zipIdx.foldlM (format.step bridge) state
  format.flushed state

end Format

/-! ### Chat Completions -/

/-- `Map::insert`. -/
def setField (value : Value) (name : String) (field : Value) : Value :=
  match value with
  | .object fields =>
    if fields.any (·.1 == name) then
      .object (fields.map fun entry => if entry.1 = name then (name, field) else entry)
    else .object (fields ++ [(name, field)])
  | other => other

/-- A message that is sent, and its parts. -/
structure ChatMessage where
  marks : List Mark
  value : Value

/-- `message["role"] == "assistant"`. -/
def ChatMessage.isAssistant (message : ChatMessage) : Bool := str message.value "role" == some "assistant"

/-- Reasoning that waits, and where it comes from. -/
structure PendingReasoning where
  marks : List Mark
  text : String

def userMessage (origin : Nat) (content : Value) : ChatMessage :=
  ⟨[.user origin], .object [("role", .string "user"), ("content", content)]⟩

/-- A message of `tool_calls`. -/
def toolCallValue (call : Call) : Value :=
  .object [("id", .string call.callId), ("type", .string "function"), ("function",
    .object [("name", .string call.name), ("arguments", .string call.arguments)])]

/-- The assistant's message of a turn, without reasoning. -/
def assistantValue (turn : Turn) : Value :=
  let content := match turn.text with
    | some (_, text) => Value.string text
    | none => .null
  let message := [("role", Value.string "assistant"), ("content", content)]
  if turn.calls = [] then .object message
  else .object (message ++ [("tool_calls", .array (turn.calls.map toolCallValue))])

/-- What a turn says, besides reasoning. -/
def Turn.said (turn : Turn) : List Mark :=
  turn.text.toList.map (fun text => .text text.1) ++ turn.calls.map fun call => .call call.origin call.callId

/-- The reasoning of a turn, or else what waits; and what waits from then on. -/
def takeReasoning (turn : Turn) (pending : Option PendingReasoning) :
    Option (List Mark × String) × Option PendingReasoning :=
  match turn.reasoningText with
  | some reasoning => (some ([], reasoning), pending)
  | none => (pending.map fun pending => (pending.marks, pending.text), none)

/-- The assistant's message of a turn. -/
def assistantMessage (turn : Turn) (reasoning : Option (List Mark × String)) : ChatMessage :=
  match reasoning with
  | some (marks, text) => ⟨marks ++ turn.said, setField (assistantValue turn) "reasoning_content" (.string text)⟩
  | none => ⟨turn.said, assistantValue turn⟩

/-- The message of one result. -/
def toolMessage (bridge : Bridge) (call : Call) (result : ToolOutput) : Except Error ChatMessage := do
  let content ← toolOutput bridge result.output false
  .ok ⟨[.result result.origin result.callId], .object [("role", .string "tool"),
    ("tool_call_id", .string call.callId), ("content", content)]⟩

/-- The messages of the results of a turn, by its calls. -/
def toolMessages (bridge : Bridge) (turn : Turn) : List Call → Except Error (List ChatMessage)
  | [] => .ok []
  | call :: calls =>
    match turn.result? call with
    | some result => do
      let message ← toolMessage bridge call result
      let messages ← toolMessages bridge turn calls
      .ok (message :: messages)
    | none => toolMessages bridge turn calls

def flushChat (bridge : Bridge) (messages : List ChatMessage) (turn : Turn)
    (pending : Option PendingReasoning) : Except Error (List ChatMessage × Option PendingReasoning) :=
  if turn.calls ≠ [] ∨ turn.text.isSome then do
    let (reasoning, pending) := takeReasoning turn pending
    let results ← toolMessages bridge turn turn.calls
    .ok (messages ++ [assistantMessage turn reasoning] ++ results, pending)
  else .ok (messages, pending)

/-- More reasoning that waits. -/
def pendingReasoning (pending : Option PendingReasoning) (origin : Nat) (text : String) : PendingReasoning :=
  match pending with
  | some previous => ⟨previous.marks ++ [.reasoning origin], previous.text ++ "\n\n" ++ text⟩
  | none => ⟨[.reasoning origin], text⟩

/-- The `reasoning_content` of a call: the first one of a turn counts. -/
def ownReasoning (turn : Turn) (item : Value) : Turn :=
  let reasoning := ((str item "reasoning_content").map trim).filter (· != "")
  { turn with reasoningText := turn.reasoningText.or reasoning }

/-- What `chat_body` does of its own. -/
def chatFormat (bridge : Bridge) (owner : String) : Format ChatMessage (Option PendingReasoning) where
  thread messages origin text := messages ++ [userMessage origin (.string text)]
  user messages origin item := do
    let content ← chatContent bridge item
    .ok (messages ++ [userMessage origin content])
  reasoning pending origin item := do
    let text ← chatReasoningText bridge item owner
    .ok (match text with
      | some text => some (pendingReasoning pending origin text)
      | none => pending)
  callReasoning := ownReasoning
  flush := flushChat bridge

/-- A message with more reasoning. -/
def addReasoning (message : ChatMessage) (pending : PendingReasoning) : ChatMessage :=
  let reasoning := match str message.value "reasoning_content" with
    | some previous => previous ++ "\n\n" ++ pending.text
    | none => pending.text
  ⟨pending.marks ++ message.marks, setField message.value "reasoning_content" (.string reasoning)⟩

/-- The search of `attach_trailing_reasoning`, from the last message on. -/
def attachBackwards (pending : PendingReasoning) : List ChatMessage → Option (List ChatMessage)
  | [] => none
  | message :: messages =>
    if message.isAssistant then some (addReasoning message pending :: messages)
    else (attachBackwards pending messages).map (message :: ·)

def attachTrailingReasoning (messages : List ChatMessage) (pending : PendingReasoning) : List ChatMessage :=
  match attachBackwards pending messages.reverse with
  | some messages => messages.reverse
  | none => messages ++ [⟨pending.marks, .object [("role", .string "assistant"), ("content", .null),
      ("reasoning_content", .string pending.text)]⟩]

/-- The text of `system_text`, as the first message. -/
def systemMessages (system : String) : List ChatMessage :=
  if system = "" then [] else [⟨[], .object [("role", .string "system"), ("content", .string system)]⟩]

/-- The messages of `chat_body`. -/
def chatMessages (bridge : Bridge) (owner system : String) (items : List Value) :
    Except Error (List ChatMessage) := do
  let state ← (chatFormat bridge owner).translate bridge ⟨systemMessages system, {}, none⟩ items
  .ok (match state.pending with
    | some pending => attachTrailingReasoning state.messages pending
    | none => state.messages)

/-! ### Anthropic Messages -/

/-- A block that is sent, and what it is; a replayed block that does not think is nothing of the history. -/
structure Block where
  mark : Option Mark
  value : Value

/-- A message: its role, and its blocks. -/
abbrev AnthropicMessage := Group String Block

def pushAnthropic (messages : List AnthropicMessage) (role : String) (blocks : List Block) :
    List AnthropicMessage :=
  if blocks.isEmpty then messages else Group.push messages ⟨role, blocks⟩

def toolUseInput (bridge : Bridge) (call : Call) : Except Error Value :=
  match bridge.fromStr call.arguments with
  | some (.object fields) => .ok (.object fields)
  | some _ => .error (.protocol
      ("Anthropic tool_use input must be a JSON object for tool call " ++ call.callId))
  | none => .error (.protocol
      ("Codex tool call " ++ call.callId ++ " carries arguments that are not JSON"))

/-- The block of a call. -/
def toolUseBlock (bridge : Bridge) (call : Call) : Except Error Block := do
  let input ← toolUseInput bridge call
  .ok ⟨some (.call call.origin call.callId), .object [("type", .string "tool_use"),
    ("id", .string call.callId), ("name", .string call.name), ("input", input)]⟩

/-- The block of a call's result. That there is one is what `validate_tool_history` checked: the source
panics without it. -/
def toolResultBlock (bridge : Bridge) (turn : Turn) (call : Call) : Except Error Block :=
  match turn.result? call with
  | some result => do
    let content ← toolOutput bridge result.output true
    .ok ⟨some (.result result.origin result.callId), .object [("type", .string "tool_result"),
      ("tool_use_id", .string call.callId), ("content", content)]⟩
  | none => .error (.protocol "complete history was validated")

def textOf (text : Nat × String) : Block := ⟨some (.text text.1), textBlock text.2⟩

def flushAnthropic (bridge : Bridge) (messages : List AnthropicMessage) (turn : Turn) (pending : List Block) :
    Except Error (List AnthropicMessage × List Block) :=
  if turn.calls ≠ [] then do
    let uses ← turn.calls.mapM (toolUseBlock bridge)
    let messages := pushAnthropic messages "assistant" (pending ++ turn.text.toList.map textOf ++ uses)
    let results ← turn.calls.mapM (toolResultBlock bridge turn)
    .ok (pushAnthropic messages "user" results, [])
  else match turn.text with
    | some text => .ok (pushAnthropic messages "assistant" (pending ++ [textOf text]), [])
    | none => .ok (messages, pending)

/-- A block that thinks. -/
def isThinking (block : Value) : Bool :=
  str block "type" == some "thinking" || str block "type" == some "redacted_thinking"

/-- A replayed block. -/
def replayedBlock (origin : Nat) (block : Value) : Block :=
  ⟨if isThinking block then some (.reasoning origin) else none, block⟩

/-- What `anthropic_body` does of its own. -/
def anthropicFormat (bridge : Bridge) (owner : String) : Format AnthropicMessage (List Block) where
  thread messages origin text := pushAnthropic messages "user" [⟨some (.user origin), textBlock text⟩]
  user messages origin item := do
    let blocks ← anthropicBlocks bridge item
    .ok (pushAnthropic messages "user" (blocks.map fun block => ⟨some (.user origin), block⟩))
  reasoning pending origin item := do
    let blocks ← anthropicThinkingBlocks bridge item owner
    .ok (pending ++ blocks.map (replayedBlock origin))
  callReasoning turn _ := turn
  flush := flushAnthropic bridge

def dropEmptyMessages (messages : List AnthropicMessage) : List AnthropicMessage :=
  messages.filter fun message => !message.items.isEmpty

def trimEnd (text : String) : String :=
  String.ofList (text.toList.reverse.dropWhile isWhitespace).reverse

/-- A block without the blanks at its end. -/
def trimBlock (block : Block) : Block :=
  match str block.value "text" with
  | some text => ⟨block.mark, setField block.value "text" (.string (trimEnd text))⟩
  | none => block

/-- The last message of `trim_trailing_assistant_prefill`. -/
def trimMessage (message : AnthropicMessage) : List AnthropicMessage :=
  if message.key = "assistant" ∧ message.items.all (fun block => str block.value "type" == some "text") then
    let blocks := (message.items.map trimBlock).filter fun block => (str block.value "text").any (· != "")
    if blocks.isEmpty then [] else [⟨message.key, blocks⟩]
  else [message]

def trimTrailingAssistantPrefill (messages : List AnthropicMessage) : List AnthropicMessage :=
  match messages.getLast? with
  | some last => messages.dropLast ++ trimMessage last
  | none => messages

/-- The messages of `anthropic_body`. -/
def anthropicMessages (bridge : Bridge) (owner : String) (items : List Value) :
    Except Error (List AnthropicMessage) := do
  let state ← (anthropicFormat bridge owner).translate bridge ⟨[], {}, []⟩ items
  let messages := dropEmptyMessages state.messages
  if messages.isEmpty then .error (.protocol "Codex history produced no Anthropic messages")
  else .ok (trimTrailingAssistantPrefill messages)

/-! ### Requests -/

def rejectUnsupported (source : Value) : Except Error Unit :=
  match ["previous_response_id", "conversation", "background"].find? fun key =>
      (source.get key).any (· != .null) with
  | some key => .error (.protocol
      (key ++ " is not supported: the bridge always sends the complete Codex history"))
  | none =>
    if (source.get "store").bind Value.asBool = some true then
      .error (.protocol "store is not supported: the bridge keeps no server-side response state")
    else if (source.get "compaction_trigger").any (· != .null) then
      .error (.protocol ("compaction_trigger is not supported: remote compaction is declared unsupported, " ++
        "Codex must compact locally"))
    else .ok ()

def inputItems (source : Value) : Except Error (List Value) :=
  let refused := Error.protocol "Codex request input must be a non-empty string or array"
  match source.get "input" with
  | some (.string text) =>
    if visible text then .ok [.object [("type", .string "message"), ("role", .string "user"),
      ("content", .string text)]]
    else .error refused
  | some (.array items) => if items.isEmpty then .error refused else .ok items
  | _ => .error refused

/-- The history of a request that `translate_request` accepts. -/
def acceptedItems (source : Value) : Except Error (List Value) := do
  rejectUnsupported source
  let items ← inputItems source
  validateToolHistory items
  .ok items

/-- The marks of messages. -/
def chatMarks (messages : List ChatMessage) : List Mark := messages.flatMap ChatMessage.marks

def anthropicMarks (messages : List AnthropicMessage) : List Mark :=
  messages.flatMap fun message => message.items.filterMap Block.mark

end Byok.Codex
