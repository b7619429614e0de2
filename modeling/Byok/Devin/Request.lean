/-
**Reading a Devin chat request.** `server/src/devin/request.rs`.

A request holds the system prompt, the messages, the tools and the identities of what it belongs to. Base64 and JSON are
parameters.

* `parseMessage` — a message of the history; an assistant message has a replay state if it has a thinking and a signature.
* `parseChatRequest` — the request.
-/

import Byok.Devin.Assignment
import Byok.Model.TokenCount

namespace Byok.Devin

open Library

/-! ### Texts -/

/-- A character of several bytes that has come in part: its bits, the bytes that are missing, the bounds of the next. -/
structure PendingChar where
  bits : Nat
  missing : Nat
  low : UInt8
  high : UInt8

/-- The replacement character. -/
def replacement : Char := '\uFFFD'

/-- A byte where a character begins. -/
def leadByte (byte : UInt8) : List Char × Option PendingChar :=
  if byte < 0x80 then ([Char.ofNat byte.toNat], none)
  else if 0xc2 ≤ byte ∧ byte ≤ 0xdf then ([], some ⟨byte.toNat - 0xc0, 1, 0x80, 0xbf⟩)
  else if 0xe0 ≤ byte ∧ byte ≤ 0xef then
    ([], some ⟨byte.toNat - 0xe0, 2, if byte = 0xe0 then 0xa0 else 0x80, if byte = 0xed then 0x9f else 0xbf⟩)
  else if 0xf0 ≤ byte ∧ byte ≤ 0xf4 then
    ([], some ⟨byte.toNat - 0xf0, 3, if byte = 0xf0 then 0x90 else 0x80, if byte = 0xf4 then 0x8f else 0xbf⟩)
  else ([replacement], none)

/-- The characters of bytes, a replacement for the longest beginning of a character that breaks off. -/
def lossyChars : Option PendingChar → List UInt8 → List Char
  | none, [] => []
  | some _, [] => [replacement]
  | none, byte :: bytes => (leadByte byte).1 ++ lossyChars (leadByte byte).2 bytes
  | some pending, byte :: bytes =>
    if pending.low ≤ byte ∧ byte ≤ pending.high then
      let bits := pending.bits * 64 + (byte.toNat - 0x80)
      if pending.missing = 1 then Char.ofNat bits :: lossyChars none bytes
      else lossyChars (some ⟨bits, pending.missing - 1, 0x80, 0xbf⟩) bytes
    else replacement :: ((leadByte byte).1 ++ lossyChars (leadByte byte).2 bytes)

def fromUtf8Lossy (bytes : List UInt8) : String :=
  match textOfBytes bytes with
  | some text => text
  | none => String.ofList (lossyChars none bytes)

example : fromUtf8Lossy [0x61, 0xe4, 0xbd, 0x62, 0xff, 0xc3, 0xa9] = "a\uFFFDb\uFFFDé" := by decide +kernel

/-! ### Fields -/

def firstField (fields : List Field) (number : UInt32) : Option Field := fields.find? fun field => field.number = number

def allFields (fields : List Field) (number : UInt32) : List Field := fields.filter fun field => field.number = number

def bytesValue (field : Field) : Except Error (List UInt8) :=
  match field.value with
  | .bytes value => .ok value
  | _ => .error (.protocol ("Devin field " ++ toString field.number.toNat ++ " must be bytes"))

def stringField (fields : List Field) (number : UInt32) : Except Error String :=
  match firstField fields number with
  | some field => (bytesValue field).map fromUtf8Lossy
  | none => .ok ""

/-- `varint_field`. -/
def varintAt (fields : List Field) (number : UInt32) : Except Error (Option Nat) :=
  match firstField fields number with
  | some field =>
    match field.value with
    | .varint value => .ok (some value.toNat)
    | _ => .error (.protocol ("Devin field " ++ toString number.toNat ++ " must be a varint"))
  | none => .ok none

/-! ### Messages -/

/-- What is left open of the readers of base64 and JSON. -/
structure Readers where
  decode : String → Except String (List UInt8)
  fromStr : String → Except String Value
  toJson : Value → String

section Messages

variable (readers : Readers)

def parseImage (bytes : List UInt8) : Except Error ContentPart := do
  let fields ← parseFields bytes
  let encoded ← stringField fields 1
  let named ← stringField fields 2
  match readers.decode encoded with
  | .ok data => return .image (if named = "" then "image/png" else named) data
  | .error error => .error (.protocol ("invalid Devin image data: " ++ error))

def parseToolCall (bytes : List UInt8) (index : Nat) : Except Error ToolCallContent := do
  let fields ← parseFields bytes
  let arguments ← stringField fields 3
  return {
    index
    callId := ← stringField fields 1
    name := ← stringField fields 2
    arguments := match readers.fromStr arguments with
      | .ok value => value
      | .error _ => .object [] }

def parseTool (bytes : List UInt8) : Except Error ToolDefinition := do
  let fields ← parseFields bytes
  let parameters ← stringField fields 3
  let name ← stringField fields 1
  let description ← stringField fields 2
  if parameters = "" then return ⟨name, description, .object []⟩
  else
    match readers.fromStr parameters with
    | .ok schema => return ⟨name, description, schema⟩
    | .error error => .error (.protocol ("invalid Devin tool schema: " ++ error))

/-- `SOURCE_USER`, `SOURCE_ASSISTANT`, `SOURCE_ASSISTANT_ALT`, `SOURCE_TOOL` and `SOURCE_SYSTEM`. -/
def sourceUser : Nat := 1
def sourceAssistant : Nat := 2
def sourceAssistantAlt : Nat := 3
def sourceTool : Nat := 4
def sourceSystem : Nat := 5

/-- The replay state of an assistant message. -/
def replayOfSigned (thinking signature : String) : Option ProviderReplayState :=
  if thinking = "" ∨ signature = "" then none
  else some ⟨"anthropic", .object [("blocks", .array
    [.object [("type", .string "thinking"), ("thinking", .string thinking), ("signature", .string signature)]])]⟩

/-- The content of an assistant message. -/
def assistantContent (fields : List Field) (text : String) : Except Error ProjectedContent := do
  let calls ← ((allFields fields 6).zipIdx).mapM fun (field, index) => do parseToolCall readers (← bytesValue field) index
  let thinking ← stringField fields 11
  let signature ← stringField fields 12
  return .assistant text thinking (replayOfSigned thinking signature) calls

/-- The role and the content of a message. -/
def messageContent (fields : List Field) (source : Nat) (text : String) (images : List ContentPart) :
    Except Error (Role × ProjectedContent) :=
  if source = sourceSystem ∨ source = sourceUser then
    .ok (if source = sourceSystem then .system else .user,
      .parts (images ++ if text = "" then [] else [.text text]))
  else if source = sourceAssistant ∨ source = sourceAssistantAlt then
    (assistantContent readers fields text).map fun content => (.assistant, content)
  else if source = sourceTool then do
    let callId ← stringField fields 7
    let failed ← varintAt fields 9
    return (.tool, .toolResult
      { callId, name := "_", content := text, isError := failed.getD 0 ≠ 0, image := none, providerParts := images })
  else .error (.protocol ("unsupported Devin message source " ++ toString source))

/-- `parse_message`: the message, and the tokens that have been declared with it. -/
def parseMessage (bytes : List UInt8) (declared : Nat) : Except Error (ProjectedMessage × Nat) := do
  let fields ← parseFields bytes
  let messageId ← stringField fields 1
  let source ← varintAt fields 2
  let tokens ← varintAt fields 4
  let text ← stringField fields 3
  let images ← (allFields fields 10).mapM fun field => do parseImage readers (← bytesValue field)
  let (role, content) ← messageContent readers fields (source.getD sourceUser) text images
  return (⟨messageId, role, content⟩, saturatingAdd declared (tokens.getD 0))

/-! ### Requests -/

inductive ContextTokenSource where
  | devin
  | estimate
deriving DecidableEq

structure DevinChatRequest where
  system : String
  history : List ProjectedMessage
  tools : List ToolDefinition
  requestedModel : String
  cascadeId : String
  promptId : String
  executionId : String
  contextTokens : Nat
  contextTokenSource : ContextTokenSource

def appendTextParts (output : String) (parts : List ContentPart) : String :=
  parts.foldl (fun output part =>
    match part with
    | .text text => output ++ text
    | _ => output) output

/-- What the loop over the messages keeps. -/
structure Dialogue where
  system : String
  history : List ProjectedMessage
  declared : Nat

/-- A message that was read. -/
def Dialogue.take (dialogue : Dialogue) (message : ProjectedMessage) (declared : Nat) : Dialogue :=
  if message.role = .system then
    let system := if dialogue.system = "" then "" else dialogue.system ++ "\n"
    { dialogue with
      declared
      system := match message.content with
        | .parts parts => appendTextParts system parts
        | _ => system }
  else { dialogue with declared, history := dialogue.history ++ [message] }

/-- One round of the loop over the messages. -/
def Dialogue.step (dialogue : Dialogue) (field : Field) : Except Error Dialogue := do
  let (message, declared) ← parseMessage readers (← bytesValue field) dialogue.declared
  return dialogue.take message declared

/-- The message of a request without any. -/
def continueMessage : ProjectedMessage := ⟨"devin:continue", .user, .parts [.text "Continue."]⟩

def parseChatRequest (payload : List UInt8) : Except Error DevinChatRequest := do
  let fields ← parseFields payload
  let system ← stringField fields 2
  let dialogue ← (allFields fields 3).foldlM (Dialogue.step readers) ⟨system, [], 0⟩
  let history := if dialogue.history = [] then [continueMessage] else dialogue.history
  let tools ← (allFields fields 10).mapM fun field => do parseTool readers (← bytesValue field)
  if (firstField fields 12).isSome then
    .error (.protocol "Devin tool choice is not supported by the shared model request yet")
  else
    let requestedModel ← stringField fields 21
    let cascadeId ← stringField fields 16
    let promptId ← stringField fields 17
    let executionId ← stringField fields 22
    return {
      system := dialogue.system
      history
      tools
      requestedModel
      cascadeId
      promptId
      executionId
      contextTokens := if 0 < dialogue.declared then dialogue.declared
        else estimateContextTokens readers.toJson ⟨dialogue.system, tools⟩ history
      contextTokenSource := if 0 < dialogue.declared then .devin else .estimate }

end Messages

end Byok.Devin
