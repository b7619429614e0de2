/-
**Answers of the Claude gateway.** `server/src/anthropic/messages.rs`.

* `StopFilter` — text up to a stop sequence, across deltas.
* `ResponseTranslator` — the events of a provider, as those of the Anthropic protocol.
* `ResponseTranslator.respond` — what is sent behind `message_start`, for a whole answer.

A `StreamEvent` is one that the source builds with `json!`. The tools of the source are a map by block index; a
new one has the highest index, so the map is the list of its entries.
-/

import Byok.Run.ModelCycle

namespace Byok.Gateway

open Library

/-! ### Events -/

/-- The `delta` of a `content_block_delta`. -/
inductive Delta where
  | text (text : String)
  | thinking (thinking : String)
  | signature (signature : String)
  | inputJson (partialJson : String)
deriving DecidableEq, Repr

/-- An event of the protocol. -/
inductive StreamEvent where
  | messageStart (message : Value)
  | contentBlockStart (index : Nat) (block : Value)
  | contentBlockDelta (index : Nat) (delta : Delta)
  | contentBlockStop (index : Nat)
  | messageDelta (stopReason : String) (stopSequence : Option String) (usage : Value)
  | messageStop
deriving Repr

/-! ### Stop sequences -/

/-- `str::find`, in characters. -/
def findText (pattern : List Char) (position : Nat) (text : List Char) : Option Nat :=
  if pattern.isPrefixOf text then some position
  else match text with
    | [] => none
    | _ :: rest => findText pattern (position + 1) rest

def earliestMatch (text : String) (sequences : List String) : Option (Nat × String) :=
  sequences.foldl (fun best sequence =>
    match findText sequence.toList 0 text.toList, best with
    | none, best => best
    | some position, none => some (position, sequence)
    | some position, some (current, known) =>
      if position < current then some (position, sequence) else some (current, known)) none

/-- `pending_suffix`, in characters. -/
def pendingSuffix (sequences : List String) : List Char → Nat
  | [] => 0
  | character :: text =>
    if sequences.any fun sequence => (character :: text).isPrefixOf sequence.toList then text.length + 1
    else pendingSuffix sequences text

structure StopFilter where
  sequences : List String
  buffer : String := ""
  stopped : Option String := none

namespace StopFilter

def push (filter : StopFilter) (delta : String) : StopFilter × String :=
  if filter.stopped.isSome then (filter, "")
  else
    let buffer := filter.buffer ++ delta
    match earliestMatch buffer filter.sequences with
    | some (position, sequence) =>
      ({ filter with buffer := "", stopped := some sequence }, String.ofList (buffer.toList.take position))
    | none =>
      let split := buffer.toList.length - pendingSuffix filter.sequences buffer.toList
      ({ filter with buffer := String.ofList (buffer.toList.drop split) }, String.ofList (buffer.toList.take split))

def flush (filter : StopFilter) : StopFilter × String := ({ filter with buffer := "" }, filter.buffer)

end StopFilter

/-! ### The translator -/

inductive BlockKind where
  | text
  | thinking
deriving DecidableEq, Repr

/-- The `content_block` of a block that opens. -/
def BlockKind.block : BlockKind → Value
  | .text => .object [("type", .string "text"), ("text", .string "")]
  | .thinking => .object [("type", .string "thinking"), ("thinking", .string "")]

structure OpenBlock where
  index : Nat
  kind : BlockKind
  providerIndex : Nat
deriving DecidableEq, Repr

structure PendingTool where
  providerIndex : Nat
  callId : String
  name : String
  arguments : String
  ended : Bool
deriving DecidableEq, Repr

/-- `ResponseTranslator`. `opened` is its `open`. -/
structure ResponseTranslator where
  messageId : String
  model : String
  nextIndex : Nat := 0
  opened : Option OpenBlock := none
  tools : List (Nat × PendingTool) := []
  estimatedInputTokens : Nat
  usage : Usage := ⟨none, none, none, none, none, none, none⟩
  finish : Option FinishReason := none
  stoppedBy : Option String := none
  text : StopFilter
  finished : Bool := false

namespace ResponseTranslator

/-- A method that sends events. -/
abbrev Sent := ResponseTranslator × List StreamEvent

/-- One method behind another. -/
def Sent.andThen (sent : Sent) (next : ResponseTranslator → Sent) : Sent :=
  ((next sent.1).1, sent.2 ++ (next sent.1).2)

def new (messageId model : String) (stopSequences : List String) (estimatedInputTokens : Nat) :
    ResponseTranslator where
  messageId
  model
  estimatedInputTokens
  text := { sequences := stopSequences }

def start (translator : ResponseTranslator) : StreamEvent :=
  .messageStart (.object [("id", .string translator.messageId), ("type", .string "message"),
    ("role", .string "assistant"), ("model", .string translator.model), ("content", .array []),
    ("stop_reason", .null), ("stop_sequence", .null), ("usage", .object
      [("input_tokens", .number (.int translator.estimatedInputTokens)), ("output_tokens", .number (.int 0))])])

/-- What `close` sends of the text that is held back. -/
def heldBack (index : Nat) (rest : String) : List StreamEvent :=
  if rest = "" then [] else [.contentBlockDelta index (.text rest)]

def close (translator : ResponseTranslator) : Sent :=
  match translator.opened with
  | none => (translator, [])
  | some block =>
    match block.kind with
    | .text =>
      let (text, rest) := translator.text.flush
      ({ translator with opened := none, text }, heldBack block.index rest ++ [.contentBlockStop block.index])
    | .thinking => ({ translator with opened := none }, [.contentBlockStop block.index])

def closeKind (translator : ResponseTranslator) (kind : BlockKind) : Sent :=
  if translator.opened.any (·.kind = kind) then translator.close else (translator, [])

def openBlock (translator : ResponseTranslator) (kind : BlockKind) (providerIndex : Nat) : Sent :=
  Sent.andThen translator.close fun translator =>
    ({ translator with
        nextIndex := translator.nextIndex + 1
        opened := some ⟨translator.nextIndex, kind, providerIndex⟩ },
      [.contentBlockStart translator.nextIndex kind.block])

def ensureOpen (translator : ResponseTranslator) (kind : BlockKind) (providerIndex : Nat) : Sent :=
  if translator.opened.any (·.kind = kind) then (translator, []) else translator.openBlock kind providerIndex

def delta (translator : ResponseTranslator) (kind : BlockKind) (providerIndex : Nat) (delta : Delta) : Sent :=
  match translator.opened with
  | none => (translator, [])
  | some block =>
    if block.kind ≠ kind ∨ block.providerIndex ≠ providerIndex then (translator, [])
    else (translator, [.contentBlockDelta block.index delta])

/-- What `flush_tool` sends of the arguments. -/
def argumentsDelta (index : Nat) (arguments : String) : List StreamEvent :=
  if arguments = "" then [] else [.contentBlockDelta index (.inputJson arguments)]

/-- The `content_block` of a tool. -/
def PendingTool.block (tool : PendingTool) : Value :=
  .object [("type", .string "tool_use"), ("id", .string tool.callId), ("name", .string tool.name),
    ("input", .object [])]

def flushTool (translator : ResponseTranslator) (index : Nat) (tool : PendingTool) : Sent :=
  Sent.andThen translator.close fun translator =>
    (translator, .contentBlockStart index (PendingTool.block tool) ::
      (argumentsDelta index tool.arguments ++ [.contentBlockStop index]))

/-- The loops of `flush_finished_tools` and of `finish`, over the tools that wait. -/
def flushWhile (ready : PendingTool → Bool) (translator : ResponseTranslator) : List (Nat × PendingTool) → Sent
  | [] => ({ translator with tools := [] }, [])
  | (index, tool) :: tools =>
    if ready tool then Sent.andThen (translator.flushTool index tool) fun translator => flushWhile ready translator tools
    else ({ translator with tools := (index, tool) :: tools }, [])

def flushFinishedTools (translator : ResponseTranslator) : Sent :=
  translator.flushWhile PendingTool.ended translator.tools

/-- `pending_tool_mut`: the first tool of a provider's index changes. -/
def updateTool (translator : ResponseTranslator) (providerIndex : Nat) (update : PendingTool → PendingTool) :
    ResponseTranslator :=
  { translator with tools := updateFirst translator.tools }
where
  updateFirst : List (Nat × PendingTool) → List (Nat × PendingTool)
    | [] => []
    | (index, tool) :: tools =>
      if tool.providerIndex = providerIndex then (index, update tool) :: tools
      else (index, tool) :: updateFirst tools

/-- One block of `redacted_blocks`. -/
def redactedBlock (translator : ResponseTranslator) (block : Value) : Sent :=
  if (block.get "type").bind Value.asStr ≠ some "redacted_thinking" then (translator, [])
  else
    let index := translator.nextIndex
    Sent.andThen ({ translator with nextIndex := index + 1 } : ResponseTranslator).close fun translator =>
      (translator, [.contentBlockStart index block, .contentBlockStop index])

/-- The loop of `redacted_blocks`. -/
def redactedLoop (translator : ResponseTranslator) : List Value → Sent
  | [] => (translator, [])
  | block :: blocks =>
    Sent.andThen (translator.redactedBlock block) fun translator => redactedLoop translator blocks

/-- The blocks of an Anthropic replay state. -/
def replayBlocks (state : ProviderReplayState) : List Value :=
  if state.providerKind ≠ "anthropic" then [] else ((state.value.get "blocks").bind Value.asArray).getD []

def redactedBlocks (translator : ResponseTranslator) (state : ProviderReplayState) : Sent :=
  translator.redactedLoop (replayBlocks state)

/-- The text of a delta that is not held back. -/
def sendText (translator : ResponseTranslator) (text : String) : Sent :=
  if text = "" then (translator, []) else translator.delta .text 0 (.text text)

/-- The block of a text with a stop sequence is closed. -/
def stopText (translator : ResponseTranslator) : Sent :=
  if translator.text.stopped.isSome then ({ translator with stoppedBy := translator.text.stopped } : ResponseTranslator).close
  else (translator, [])

/-- `ModelEvent::TextDelta`, once its block is open. -/
def pushText (translator : ResponseTranslator) (delta : String) : Sent :=
  let (text, emitted) := translator.text.push delta
  Sent.andThen (({ translator with text } : ResponseTranslator).sendText emitted) stopText

/-- `ModelEvent::ToolCallStart`. -/
def reserveTool (translator : ResponseTranslator) (providerIndex : Nat) (callId name : String) : ResponseTranslator :=
  if translator.tools.any fun entry => entry.2.providerIndex = providerIndex then translator
  else
    { translator with
      nextIndex := translator.nextIndex + 1
      tools := translator.tools ++ [(translator.nextIndex, ⟨providerIndex, callId, name, "", false⟩)] }

/-- `push`, behind a stop sequence. -/
def pushStopped (translator : ResponseTranslator) : ModelEvent → Sent
  | .usage usage => ({ translator with usage }, [])
  | .done reason => ({ translator with finish := some reason }, [])
  | .providerReplayState state => translator.redactedBlocks state
  | _ => (translator, [])

/-- `push`, before one. -/
def pushEvent (translator : ResponseTranslator) : ModelEvent → Sent
  | .start _ => (translator, [])
  | .textStart => translator.openBlock .text 0
  | .textDelta delta => Sent.andThen (translator.ensureOpen .text 0) fun translator => translator.pushText delta
  | .textEnd => translator.closeKind .text
  | .thinkingStart => translator.openBlock .thinking 0
  | .thinkingDelta delta =>
    Sent.andThen (translator.ensureOpen .thinking 0) fun translator => translator.delta .thinking 0 (.thinking delta)
  | .thinkingSignature signature =>
    if translator.opened.any (·.kind = .thinking) then translator.delta .thinking 0 (.signature signature)
    else (translator, [])
  | .thinkingEnd => translator.closeKind .thinking
  | .toolCallStart index callId name => (translator.reserveTool index callId name, [])
  | .toolCallArgumentsDelta index delta =>
    (translator.updateTool index fun tool => { tool with arguments := tool.arguments ++ delta }, [])
  | .toolCallEnd index => (translator.updateTool index fun tool => { tool with ended := true }).flushFinishedTools
  | .providerReplayState state => translator.redactedBlocks state
  | .stopSequence sequence => ({ translator with stoppedBy := some sequence } : ResponseTranslator).close
  | .usage usage => ({ translator with usage }, [])
  | .done reason => ({ translator with finish := some reason }, [])

def push (translator : ResponseTranslator) (event : ModelEvent) : Sent :=
  if translator.finished then (translator, [])
  else if translator.stoppedBy.isSome then translator.pushStopped event
  else translator.pushEvent event

def stopReason (translator : ResponseTranslator) : String :=
  match translator.finish with
  | some .length => "max_tokens"
  | some .toolUse => "tool_use"
  | _ => if translator.stoppedBy.isSome then "stop_sequence" else "end_turn"

def usageJson (translator : ResponseTranslator) : Value :=
  let usage := translator.usage
  let cacheRead := usage.cacheReadTokens.getD 0
  let cacheWrite := usage.cacheWriteTokens.getD 0
  let input := ((usage.contextInputTokens.map fun total => total - cacheRead - cacheWrite).or usage.inputTokens).getD 0
  let count (tokens : Nat) : Value := .number (.int tokens)
  .object ([("input_tokens", count input), ("output_tokens", count (usage.outputTokens.getD 0))] ++
    (if usage.cacheReadTokens.isSome then [("cache_read_input_tokens", count cacheRead)] else []) ++
    (if usage.cacheWriteTokens.isSome then [("cache_creation_input_tokens", count cacheWrite)] else []))

/-- The end of `finish`. -/
def closing (translator : ResponseTranslator) : List StreamEvent :=
  [.messageDelta translator.stopReason translator.stoppedBy translator.usageJson, .messageStop]

/-- `finish`. -/
def finishAll (translator : ResponseTranslator) : Sent :=
  if translator.finished then (translator, [])
  else
    let tools := translator.tools
    let translator : ResponseTranslator := { translator with finished := true, tools := [] }
    Sent.andThen (translator.flushWhile (fun _ => true) tools) fun translator =>
      Sent.andThen translator.close fun translator => (translator, translator.closing)

/-- All pushes. -/
def pushAll (translator : ResponseTranslator) : List ModelEvent → Sent
  | [] => (translator, [])
  | event :: events => Sent.andThen (translator.push event) fun translator => pushAll translator events

/-- All pushes, and `finish`. -/
def respond (translator : ResponseTranslator) (events : List ModelEvent) : List StreamEvent :=
  (Sent.andThen (translator.pushAll events) finishAll).2

end ResponseTranslator

end Byok.Gateway
