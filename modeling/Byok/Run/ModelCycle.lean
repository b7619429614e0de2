/-
**One model call.** `server/src/run/model_cycle.rs`, `provider/event.rs`.

`consume_model_cycle` reads the events of a provider, forwards the content to the client, and gathers the
answer. `CycleState` is what it keeps between two events, `CycleState.handle` what it does at one, and
`CycleState.consume` the loop.

The parser of argument texts is a parameter. What is left out is the duration of a thinking block.
-/

import Byok.Run.Engine

namespace Byok

open Library

inductive FinishReason where
  | stop
  | length
  | toolUse
deriving DecidableEq, Repr

structure Usage where
  inputTokens : Option Nat
  contextInputTokens : Option Nat
  outputTokens : Option Nat
  totalTokens : Option Nat
  cacheReadTokens : Option Nat
  cacheWriteTokens : Option Nat
  reasoningTokens : Option Nat
deriving DecidableEq, Repr

inductive ModelEvent where
  | start (modelCallId : String)
  | textStart
  | textDelta (delta : String)
  | textEnd
  | thinkingStart
  | thinkingDelta (delta : String)
  | thinkingSignature (signature : String)
  | thinkingEnd
  | toolCallStart (index : Nat) (callId name : String)
  | toolCallArgumentsDelta (index : Nat) (delta : String)
  | toolCallEnd (index : Nat)
  | providerReplayState (state : ProviderReplayState)
  | usage (usage : Usage)
  | stopSequence (sequence : String)
  | done (reason : FinishReason)
deriving DecidableEq, Repr

/-- The part of `RunEvent` that a model call sends. -/
inductive RunEvent where
  | textStart
  | textDelta (delta : String)
  | textEnd
  | thinkingStart
  | thinkingDelta (delta : String)
  | thinkingEnd
  | toolCallStart (index : Nat) (callId name modelCallId : String)
  | toolCallArgumentsDelta (index : Nat) (delta : String)
  | toolCallEnd (index : Nat)
  | usage (usage : Usage)
deriving DecidableEq, Repr

/-- What the loop gets: an item of the provider's stream, or the cancellation. -/
inductive StreamItem where
  | event (event : ModelEvent)
  | error (failure : RunFailure)
  | cancelled
deriving DecidableEq, Repr

/-- The channel of the client: there may be none, and it may close after a number of events. -/
inductive ClientChannel where
  | absent
  | live
  | closing (after : Nat)
deriving DecidableEq, Repr

/-- `ModelCycleResult`. -/
structure CompletedCycle extends ModelCycleResult where
  usage : Option Usage
  finishReason : FinishReason
deriving DecidableEq, Repr

/-- `ModelCycleFailure`. -/
structure FailedCycle extends ModelCycleFailure where
  usage : Option Usage
deriving DecidableEq, Repr

/-! ### Failures -/

/-- The part of a text before the first `": "`, or all of it. -/
def failureHead : List Char → List Char
  | ':' :: ' ' :: _ => []
  | [] => []
  | character :: rest => character :: failureHead rest

/-- A token of three digits that starts with a 4. -/
def isRejectedStatus (token : List Char) : Bool :=
  token.length == 3 && token.head? == some '4' && token.all Char.isDigit &&
    !(token == "408".toList || token == "425".toList || token == "429".toList)

def isRejectedRequest (message : String) : Bool :=
  ((failureHead message.toList).splitOnP isWhitespace).any isRejectedStatus

/-- Whether a failure is worth another try. -/
def RunFailure.retryable : RunFailure → Bool
  | .protocol _ => true
  | .provider message => !isRejectedRequest message
  | .truncated _ => false
  | .store _ | .client _ => false

/-! ### The state of a model call -/

structure OpenTool where
  call : ToolCall
  ended : Bool
deriving DecidableEq, Repr

/-- A tool at its `ToolCallStart`. -/
def OpenTool.start (modelCallId : String) (index : Nat) (callId name : String) : OpenTool :=
  ⟨⟨index, callId, modelCallId, normalizeToolName name, "", .null, none⟩, false⟩

/-- A tool with more of its arguments. -/
def OpenTool.extend (tool : OpenTool) (delta : String) : OpenTool :=
  { tool with call := { tool.call with argumentsText := tool.call.argumentsText ++ delta } }

/-- The arguments of a call, and what is wrong with them. -/
def closedArguments (parse : String → Except String Value) (name text : String) :
    Value × Option String :=
  if trim text = "" then (.object [], none)
  else
    match parse text with
    | .ok (.object fields) => (.object fields, none)
    | .ok _ => (.object [], some (name ++ " arguments must be a JSON object"))
    | .error error => (.object [], some (name ++ " arguments are not valid JSON: " ++ error))

/-- A tool that ends. -/
def OpenTool.close (tool : OpenTool) (parse : String → Except String Value) : OpenTool where
  call := { tool.call with
    arguments := (closedArguments parse tool.call.name tool.call.argumentsText).1
    argumentError := (closedArguments parse tool.call.name tool.call.argumentsText).2 }
  ended := true

/-- What `consume_model_cycle` keeps. `sent` is what it gave to the client. -/
structure CycleState where
  modelCallId : Option String
  text : String
  reasoning : String
  textOpen : Bool
  thinkingOpen : Bool
  tools : Std.TreeMap Nat OpenTool
  callIds : List String
  replayState : Option ProviderReplayState
  usage : Option Usage
  finish : Option FinishReason
  sent : List RunEvent

namespace CycleState

/-- At the beginning. -/
def initial : CycleState :=
  ⟨none, "", "", false, false, ∅, [], none, none, none, []⟩

/-- A step that goes wrong: the failure, and the state it leaves. -/
abbrev Step := Except (RunFailure × CycleState) CycleState

/-- An `Err(message)` of the match. -/
def refuse (state : CycleState) (message : String) : Step := .error (.protocol message, state)

def send (client : ClientChannel) (state : CycleState) (event : RunEvent) : Option CycleState :=
  match client with
  | .absent => some state
  | .live => some { state with sent := state.sent ++ [event] }
  | .closing after =>
    if state.sent.length < after then some { state with sent := state.sent ++ [event] } else none

/-- A `send` whose error is that of the match. -/
def forward (client : ClientChannel) (state : CycleState) (event : RunEvent) : Step :=
  match state.send client event with
  | some next => .ok next
  | none => state.refuse "client event channel closed"

/-- `ModelEvent::ToolCallStart`. -/
def startTool (client : ClientChannel) (state : CycleState) (index : Nat) (callId name : String) :
    Step :=
  match state.modelCallId with
  | none => state.refuse "provider emitted content before Start"
  | some modelCallId =>
    if state.tools.contains index then state.refuse "provider reused a tool index"
    else if state.callIds.contains callId then state.refuse "provider reused a tool call_id"
    else
      forward client { state with
          tools := state.tools.insert index (OpenTool.start modelCallId index callId name)
          callIds := callId :: state.callIds }
        (.toolCallStart index callId (normalizeToolName name) modelCallId)

/-- `ModelEvent::ToolCallArgumentsDelta`. -/
def extendTool (client : ClientChannel) (state : CycleState) (index : Nat) (delta : String) : Step :=
  match state.tools[index]? with
  | some tool =>
    if tool.ended then state.refuse "provider emitted tool arguments after ToolCallEnd"
    else forward client { state with tools := state.tools.insert index (tool.extend delta) }
      (.toolCallArgumentsDelta index delta)
  | none => state.refuse "provider emitted tool arguments for an unknown index"

/-- `ModelEvent::ToolCallEnd`. -/
def endTool (parse : String → Except String Value) (client : ClientChannel) (state : CycleState)
    (index : Nat) : Step :=
  match state.tools[index]? with
  | some tool =>
    if tool.ended then state.refuse "provider emitted duplicate ToolCallEnd"
    else forward client { state with tools := state.tools.insert index (tool.close parse) }
      (.toolCallEnd index)
  | none => state.refuse "provider ended an unknown tool index"

/-- Whether a content block is open. -/
def hasOpenBlock (state : CycleState) : Bool :=
  state.textOpen || state.thinkingOpen || state.tools.toList.any fun entry => !entry.2.ended

/-- The match of the loop. -/
def handle (parse : String → Except String Value) (client : ClientChannel) (state : CycleState) :
    ModelEvent → Step
  | .start id =>
    if state.modelCallId.isSome then
      refuse { state with modelCallId := some id } "provider emitted duplicate Start"
    else .ok { state with modelCallId := some id }
  | .textStart =>
    if state.modelCallId.isNone then state.refuse "provider emitted content before Start"
    else if state.textOpen then state.refuse "provider emitted duplicate TextStart"
    else forward client { state with textOpen := true } .textStart
  | .textDelta delta =>
    if !state.textOpen then state.refuse "provider emitted TextDelta before TextStart"
    else forward client { state with text := state.text ++ delta } (.textDelta delta)
  | .textEnd =>
    if !state.textOpen then state.refuse "provider emitted TextEnd before TextStart"
    else forward client { state with textOpen := false } .textEnd
  | .thinkingStart =>
    if state.modelCallId.isNone then state.refuse "provider emitted content before Start"
    else if state.thinkingOpen then state.refuse "provider emitted duplicate ThinkingStart"
    else forward client { state with thinkingOpen := true } .thinkingStart
  | .thinkingDelta delta =>
    if !state.thinkingOpen then state.refuse "provider emitted ThinkingDelta before ThinkingStart"
    else forward client { state with reasoning := state.reasoning ++ delta } (.thinkingDelta delta)
  | .thinkingSignature _ => .ok state
  | .stopSequence _ => .ok state
  | .thinkingEnd =>
    if !state.thinkingOpen then state.refuse "provider emitted ThinkingEnd before ThinkingStart"
    else forward client { state with thinkingOpen := false } .thinkingEnd
  | .toolCallStart index callId name => state.startTool client index callId name
  | .toolCallArgumentsDelta index delta => state.extendTool client index delta
  | .toolCallEnd index => state.endTool parse client index
  | .providerReplayState replay =>
    if state.replayState.isSome then
      refuse { state with replayState := some replay } "provider emitted duplicate ProviderReplayState"
    else .ok { state with replayState := some replay }
  | .usage usage =>
    if state.usage.isSome then
      refuse { state with usage := some usage } "provider emitted duplicate Usage"
    else
      match send client { state with usage := some usage } (.usage usage) with
      | some next => .ok next
      | none => .error (.client "client event channel closed", { state with usage := some usage })
  | .done reason =>
    if state.modelCallId.isNone then state.refuse "provider emitted content before Start"
    else if state.hasOpenBlock then state.refuse "provider emitted Done with an open content block"
    else .ok { state with finish := some reason }

/-! ### The loop -/

/-- `failure`. -/
def failed (state : CycleState) (failure : RunFailure) : FailedCycle :=
  ⟨⟨failure, state.text, state.reasoning, none, failure.retryable⟩, state.usage⟩

/-- The failure of an answer that ran into the limit of its length. -/
def truncated (state : CycleState) : FailedCycle :=
  ⟨⟨.truncated "model stopped before completing the response", state.text, state.reasoning,
    state.replayState, false⟩, state.usage⟩

/-- `interrupt_cycle`. The results of its sends are ignored. -/
def interrupted (client : ClientChannel) (state : CycleState) : CycleState :=
  let state := if state.textOpen then (state.send client .textEnd).getD state else state
  if state.thinkingOpen then (state.send client .thinkingEnd).getD state else state

/-- The end of the function. -/
def finished (state : CycleState) : Except FailedCycle CompletedCycle :=
  match state.finish with
  | none => .error (state.failed (.provider "provider stream reached EOF before Done"))
  | some reason =>
    let calls := state.tools.toList.map fun entry => entry.2.call
    if reason = .length then .error state.truncated
    else if (reason == .toolUse) != !calls.isEmpty then
      .error (state.failed (.protocol "finish reason and tool calls disagree"))
    else
      match state.modelCallId with
      | none => .error (state.failed (.protocol "provider completed without Start"))
      | some modelCallId =>
        .ok ⟨⟨modelCallId, state.text, state.reasoning, state.replayState, calls⟩, state.usage, reason⟩

/-- The loop: what was sent, and the answer. -/
def consume (parse : String → Except String Value) (client : ClientChannel) (state : CycleState) :
    List StreamItem → List RunEvent × Except FailedCycle CompletedCycle
  | [] => (state.sent, state.finished)
  | .cancelled :: _ =>
    ((state.interrupted client).sent, .error (state.failed (.client "run was cancelled")))
  | .error failure :: _ => (state.sent, .error (state.failed failure))
  | .event event :: items =>
    if state.finish.isSome then
      (state.sent, .error (state.failed (.protocol "provider emitted an event after Done")))
    else
      match state.handle parse client event with
      | .error (failure, state) => (state.sent, .error (state.failed failure))
      | .ok state => consume parse client state items

end CycleState

def consumeModelCycle (parse : String → Except String Value) (client : ClientChannel)
    (items : List StreamItem) : List RunEvent × Except FailedCycle CompletedCycle :=
  CycleState.initial.consume parse client items

end Byok
