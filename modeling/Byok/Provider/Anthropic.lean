/-
**Requests to Anthropic.** `server/src/provider/anthropic.rs`.

* `anthropicMessages` — the messages of a projected history.
* `applyModel` — whether, and how, the model is to think.
* `Answered` — a history whose calls are followed by exactly their results.
-/

import Byok.Library.Adjacent
import Byok.Library.Fallible
import Byok.Model.Segments

namespace Byok.Anthropic

open Library

/-! ### Blocks -/

structure Base64 where
  encode : List UInt8 → String

def textBlock (text : String) : Value := .object [("type", .string "text"), ("text", .string text)]

def imageBlock (base64 : Base64) (mimeType : String) (data : List UInt8) : Value :=
  .object [("type", .string "image"), ("source", .object [("type", .string "base64"),
    ("media_type", .string mimeType), ("data", .string (base64.encode data))])]

def toolUseBlock (call : ToolCallContent) : Value :=
  .object [("type", .string "tool_use"), ("id", .string call.callId), ("name", .string call.name),
    ("input", call.arguments)]

/-- `block.get("type") == kind`. -/
def isKind (kind : String) (block : Value) : Bool := (block.get "type").bind Value.asStr == some kind

def anthropicParts (base64 : Base64) (role : Role) : List ContentPart → Except Error (List Value)
  | [] => .ok []
  | .text text :: parts => do
    let blocks ← anthropicParts base64 role parts
    .ok (if text = "" then blocks else textBlock text :: blocks)
  | .image mimeType data :: parts =>
    if role = .user then do
      let blocks ← anthropicParts base64 role parts
      .ok (imageBlock base64 mimeType data :: blocks)
    else .error (.protocol "Anthropic only accepts images in user messages")

/-- The content of a tool result. -/
def resultContent (base64 : Base64) (result : ToolResultContent) : Except Error Value :=
  if result.providerParts = [] then .ok (.string result.content)
  else (anthropicParts base64 .user result.providerParts).map Value.array

/-- The block of a tool result. -/
def toolResultBlock (base64 : Base64) (result : ToolResultContent) : Except Error Value := do
  let content ← resultContent base64 result
  let block := Value.object [("type", .string "tool_result"), ("tool_use_id", .string result.callId),
    ("content", content)]
  .ok (if result.isError then block.insertField "is_error" (.bool true) else block)

/-- The blocks that are replayed to Anthropic. -/
def replayBlocks (replayState : Option ProviderReplayState) : List Value :=
  match replayState with
  | some state =>
    if state.providerKind = "anthropic" then ((state.value.get "blocks").bind Value.asArray).getD []
    else []
  | none => []

/-! ### Messages -/

/-- A message: the key of a group is its role, its items are the blocks. -/
abbrev AnthropicMessage := Group String Value

abbrev AnthropicMessage.role (message : AnthropicMessage) : String := message.key

abbrev AnthropicMessage.content (message : AnthropicMessage) : List Value := message.items

def roleName : Role → String
  | .system => "user"
  | .user => "user"
  | .assistant => "assistant"
  | .tool => "user"

/-- The blocks of one projected message, under its role. -/
def messageBlocks (base64 : Base64) (message : ProjectedMessage) : Except Error AnthropicMessage :=
  match message.content with
  | .parts parts => (anthropicParts base64 message.role parts).map fun blocks =>
      ⟨roleName message.role, blocks⟩
  | .toolResult result => (toolResultBlock base64 result).map fun block => ⟨"user", [block]⟩
  | .assistant text _ replayState calls =>
    .ok ⟨"assistant", replayBlocks replayState ++ (if text = "" then [] else [textBlock text]) ++
      calls.map toolUseBlock⟩

/-- `push_anthropic`, of blocks that are not empty. -/
def pushAnthropic (output : List AnthropicMessage) (message : AnthropicMessage) : List AnthropicMessage :=
  if message.content = [] then output else Group.push output message

/-- The loop of `anthropic_messages`. -/
def pushMessages (base64 : Base64) (output : List AnthropicMessage) :
    List ProjectedMessage → Except Error (List AnthropicMessage)
  | [] => .ok output
  | message :: messages => do
    let blocks ← messageBlocks base64 message
    pushMessages base64 (pushAnthropic output blocks) messages

def anthropicMessages (base64 : Base64) (messages : List ProjectedMessage) :
    Except Error (List AnthropicMessage) := pushMessages base64 [] messages

/-- The last of the blocks that may be marked, marked. -/
def markBlocks : List Value → List Value
  | [] => []
  | block :: blocks =>
    if (blocks.any fun other => isKind "text" other || isKind "image" other || isKind "tool_result" other)
    then block :: markBlocks blocks
    else if isKind "text" block || isKind "image" block || isKind "tool_result" block then
      block.insertField "cache_control" (.object [("type", .string "ephemeral")]) :: blocks
    else block :: blocks

def markCacheBreakpoint : List AnthropicMessage → List AnthropicMessage
  | [] => []
  | message :: messages =>
    if (messages.any fun other => other.role == "user") then message :: markCacheBreakpoint messages
    else if message.role = "user" then ⟨message.role, markBlocks message.content⟩ :: messages
    else message :: messages

/-! ### Thinking -/

structure ReasoningSpec where
  enabled : Option Bool
  effort : Option String
  thinkingBudgetTokens : Option Nat
deriving DecidableEq, Repr

def ReasoningSpec.isEnabled (reasoning : ReasoningSpec) : Bool := reasoning.enabled == some true

def minThinkingBudget : Nat := 1024

def defaultMaxOutputTokens : Nat := 4096

def resolveMaxOutputTokens (modelMax routeMax : Option Nat) : Nat :=
  (modelMax.or routeMax).getD defaultMaxOutputTokens

/-- `budget.max(MIN_THINKING_BUDGET).min(max_tokens.saturating_sub(1))`. -/
def clampBudget (budget maxTokens : Nat) : Nat := min (max budget minThinkingBudget) (maxTokens - 1)

def thinkingConfig (reasoning : ReasoningSpec) (maxTokens : Nat) : Value :=
  match reasoning.thinkingBudgetTokens with
  | some budget => .object [("type", .string "enabled"),
      ("budget_tokens", .number (.int (clampBudget budget maxTokens)))]
  | none => .object [("type", .string "adaptive"), ("display", .string "summarized")]

/-- A message that calls a tool. -/
def hasToolUse (message : AnthropicMessage) : Bool := message.content.any (isKind "tool_use")

/-- A message that thinks. -/
def hasThinking (message : AnthropicMessage) : Bool :=
  message.content.any fun block => isKind "thinking" block || isKind "redacted_thinking" block

def trailingTurnSupportsThinking (messages : List AnthropicMessage) : Bool :=
  match messages.reverse.find? fun message => message.role == "assistant" with
  | none => true
  | some message => !hasToolUse message || hasThinking message

/-- What the body of a request holds of the messages and of thinking. -/
structure AnthropicBody where
  messages : List AnthropicMessage
  maxTokens : Nat
  thinking : Option Value := none
  outputConfig : Option Value := none
deriving DecidableEq

def applyModel (body : AnthropicBody) (reasoning : ReasoningSpec) (maxTokens : Nat) : AnthropicBody :=
  let supportsThinking := trailingTurnSupportsThinking body.messages
  let body :=
    if reasoning.isEnabled && supportsThinking then
      { body with thinking := some (thinkingConfig reasoning maxTokens) }
    else body
  if supportsThinking && reasoning.thinkingBudgetTokens.isNone then
    match reasoning.effort with
    | some effort => { body with outputConfig := some (.object [("effort", .string effort)]) }
    | none => body
  else body

/-- The body of a request, as `stream` builds it. -/
def requestBody (messages : List AnthropicMessage) (reasoning : ReasoningSpec) (maxTokens : Nat) :
    AnthropicBody :=
  applyModel { messages := markCacheBreakpoint messages, maxTokens } reasoning maxTokens

/-! ### Histories -/

/-- The calls of a round are followed by exactly their results, and results stand only there. -/
inductive Answered : List ProjectedMessage → Prop
  | nil : Answered []
  | parts {messageId : String} {role : Role} {parts : List ContentPart} {rest : List ProjectedMessage}
      (more : Answered rest) : Answered (⟨messageId, role, .parts parts⟩ :: rest)
  | assistant {messageId text thinking : String} {replayState : Option ProviderReplayState}
      {rest : List ProjectedMessage} (more : Answered rest) :
      Answered (⟨messageId, .assistant, .assistant text thinking replayState []⟩ :: rest)
  | round {messageId text thinking : String} {replayState : Option ProviderReplayState}
      {calls : List ToolCallContent} {results : List (String × ToolResultContent)}
      {rest : List ProjectedMessage} (called : calls ≠ [])
      (answers : ∀ entry ∈ results, entry.2.callId ∈ calls.map (·.callId))
      (answered : ∀ call ∈ calls, call.callId ∈ results.map (·.2.callId))
      (distinct : (results.map (·.2.callId)).Nodup) (more : Answered rest) :
      Answered (roundMessages messageId text thinking replayState calls results ++ rest)

end Byok.Anthropic
