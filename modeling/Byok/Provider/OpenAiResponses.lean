/-
**The OpenAI Responses adapter.** `server/src/provider/openai_responses.rs`.

An upstream sends output items one after another; the text of a part comes in deltas and once more in its
done event, and the text of a message once more in its item. The adapter compares each of these with all the
text that it has sent on (`reconcileResponseText`).

Lengths of arguments are counted in characters: each is the length of a prefix.
-/

import Byok.Provider.Upstream

namespace Byok.Provider.OpenAiResponses

open Library

/-! ### Tool calls -/

structure ResponseToolState where
  callId : Option String
  name : Option String
  arguments : String
  emittedArguments : Nat
  started : Bool
  ended : Bool
deriving DecidableEq, Repr

/-- `ResponseToolState::default()`. -/
def ResponseToolState.fresh : ResponseToolState := ⟨none, none, "", 0, false, false⟩

inductive ResponseToolArguments where
  | none
  | delta (delta : String)
  | snapshot (snapshot : String)

def requiredU64 (value : Value) (name : String) : Except RunFailure Nat :=
  match (value.get name).bind Value.asU64 with
  | some number => .ok number
  | none => .error (.provider ("OpenAI Responses event is missing " ++ name))

namespace ResponseToolState

/-- The id and the name, which the first value that comes decides. -/
def identify (tool : ResponseToolState) (item : Value) : ResponseToolState :=
  { tool with
    callId := tool.callId <|> item.textAt "call_id"
    name := tool.name <|> item.textAt "name" }

/-- The arguments so far. -/
def take (tool : ResponseToolState) : ResponseToolArguments → Except RunFailure ResponseToolState
  | .none => .ok tool
  | .delta delta => .ok { tool with arguments := tool.arguments ++ delta }
  | .snapshot snapshot =>
    if snapshot = tool.arguments then .ok tool
    else if tool.arguments.toList <+: snapshot.toList then
      .ok { tool with
        arguments := tool.arguments ++ String.ofList (snapshot.toList.drop tool.arguments.length) }
    else
      .error (.provider "OpenAI Responses final tool arguments do not match streamed arguments")

/-- The call starts when it has an id and a name. -/
def start (tool : ResponseToolState) (index : Nat) : List ModelEvent × ResponseToolState :=
  match tool.started, tool.callId, tool.name with
  | false, some callId, some name => ([.toolCallStart index callId name], { tool with started := true })
  | _, _, _ => ([], tool)

/-- What has come of the arguments, and was not sent on. -/
def emit (tool : ResponseToolState) (index : Nat) : List ModelEvent × ResponseToolState :=
  if tool.started && tool.emittedArguments < tool.arguments.length then
    ([.toolCallArgumentsDelta index (String.ofList (tool.arguments.toList.drop tool.emittedArguments))],
      { tool with emittedArguments := tool.arguments.length })
  else ([], tool)

/-- The end of the call, if it is done. -/
def close (tool : ResponseToolState) (index : Nat) (done : Bool) :
    Except RunFailure (List ModelEvent × ResponseToolState) :=
  if done && !tool.ended then
    if tool.started then .ok ([.toolCallEnd index], { tool with ended := true })
    else .error (.provider "OpenAI Responses function call is missing call_id or name")
  else .ok ([], tool)

end ResponseToolState

def updateResponseTool (tools : Std.TreeMap Nat ResponseToolState) (index : Nat) (item : Value)
    (arguments : ResponseToolArguments) (done : Bool) :
    Except RunFailure (List ModelEvent × Std.TreeMap Nat ResponseToolState) := do
  let tool ← ((tools[index]?.getD .fresh).identify item).take arguments
  let (starts, tool) := tool.start index
  let (deltas, tool) := tool.emit index
  let (ends, tool) ← tool.close index done
  .ok (starts ++ deltas ++ ends, tools.insert index tool)

/-! ### Text -/

def responseItemText (item : Value) : Option String := do
  let content ← (item.get "content").bind Value.asArray
  some (String.join ((content.filter fun part => part.textAt "type" = some "output_text").filterMap
    fun part => part.textAt "text"))

/-- What the loop keeps. -/
structure ResponsesState where
  textOpen : Bool
  text : String
  thinkingOpen : Bool
  tools : Std.TreeMap Nat ResponseToolState
  reasoningItems : List Value
  sawTool : Bool
  sawCompletedItem : Bool
  terminal : Bool

namespace ResponsesState

def initial : ResponsesState := ⟨false, "", false, ∅, [], false, false, false⟩

def reconcileResponseText (state : ResponsesState) (final : String) : List ModelEvent × ResponsesState :=
  if state.text.toList <+: final.toList ∧ state.text.length < final.length then
    let suffix := String.ofList (final.toList.drop state.text.length)
    ((if state.textOpen then [] else [.textStart]) ++ [.textDelta suffix],
      { state with textOpen := true, text := state.text ++ suffix })
  else ([], state)

/-- The text block is closed. -/
def closeText (state : ResponsesState) : List ModelEvent × ResponsesState :=
  (if state.textOpen then [.textEnd] else [], { state with textOpen := false })

/-- The thinking block is closed. -/
def closeThinking (state : ResponsesState) : List ModelEvent × ResponsesState :=
  (if state.thinkingOpen then [.thinkingEnd] else [], { state with thinkingOpen := false })

/-- `response.output_text.delta`. -/
def textDelta (state : ResponsesState) (value : Value) : List ModelEvent × ResponsesState :=
  let (closed, state) := state.closeThinking
  let opened := if state.textOpen then [] else [ModelEvent.textStart]
  let state := { state with textOpen := true }
  match value.textAt "delta" with
  | some delta => (closed ++ opened ++ [.textDelta delta], { state with text := state.text ++ delta })
  | none => (closed ++ opened, state)

/-- A final text, and the end of its block. -/
def textDone (state : ResponsesState) (final : Option String) : List ModelEvent × ResponsesState :=
  let (reconciled, state) := match final with
    | some final => state.reconcileResponseText final
    | none => ([], state)
  let (closed, state) := state.closeText
  (reconciled ++ closed, state)

/-- `response.reasoning_text.delta`, and that of a summary. -/
def thinkingDelta (state : ResponsesState) (value : Value) : List ModelEvent × ResponsesState :=
  ((if state.thinkingOpen then [] else [.thinkingStart]) ++
      (value.textAt "delta").toList.map .thinkingDelta, { state with thinkingOpen := true })

/-! ### Calls -/

/-- A change of the tools. -/
def updateTools (state : ResponsesState) (index : Nat) (item : Value) (arguments : ResponseToolArguments)
    (done : Bool) : Except RunFailure (List ModelEvent × ResponsesState) := do
  let (events, tools) ← updateResponseTool state.tools index item arguments done
  .ok (events, { state with tools := tools })

/-- `response.output_item.added`. -/
def itemAdded (state : ResponsesState) (value : Value) : Except RunFailure (List ModelEvent × ResponsesState) :=
  let item := (value.get "item").getD .null
  if item.textAt "type" = some "function_call" then do
    let index ← requiredU64 value "output_index"
    ({ state with sawTool := true }).updateTools index item .none false
  else .ok ([], state)

/-- `response.output_item.done`. -/
def itemDone (state : ResponsesState) (value : Value) : Except RunFailure (List ModelEvent × ResponsesState) :=
  let item := (value.get "item").getD .null
  match item.textAt "type" with
  | some "reasoning" =>
    let (closed, state) := state.closeThinking
    .ok (closed, { state with reasoningItems := state.reasoningItems ++ [item] })
  | some "message" => .ok ({ state with sawCompletedItem := true }.textDone (responseItemText item))
  | some "function_call" => do
    let index ← requiredU64 value "output_index"
    let state := { state with sawCompletedItem := true, sawTool := true }
    state.updateTools index item ((item.textAt "arguments").elim .none .snapshot) true
  | _ => .ok ([], state)

/-- `response.function_call_arguments.delta`. -/
def argumentsDelta (state : ResponsesState) (value : Value) :
    Except RunFailure (List ModelEvent × ResponsesState) := do
  let index ← requiredU64 value "output_index"
  match value.textAt "delta" with
  | some delta => ({ state with sawTool := true }).updateTools index .null (.delta delta) false
  | none => .ok ([], state)

/-- `response.function_call_arguments.done`. -/
def argumentsDone (state : ResponsesState) (value : Value) :
    Except RunFailure (List ModelEvent × ResponsesState) := do
  let index ← requiredU64 value "output_index"
  match value.textAt "arguments" with
  | some "" => state.updateTools index .null .none false
  | some arguments => state.updateTools index .null (.snapshot arguments) true
  | none => state.updateTools index .null .none true

/-! ### The end of the response -/

/-- The calls that run. -/
def running (state : ResponsesState) : List Nat :=
  (state.tools.toList.filter fun entry => entry.2.started && !entry.2.ended).map Prod.fst

/-- The same calls, ended. -/
def endTools (state : ResponsesState) : ResponsesState :=
  { state with tools := state.tools.map fun _ tool => { tool with ended := tool.ended || tool.started } }

/-- The reasoning items, for the next request. -/
def replay (state : ResponsesState) (owner : Value) : Option ProviderReplayState :=
  if state.reasoningItems = [] then none
  else some ⟨"openai_responses", .object [("items", .array state.reasoningItems), ("owner", owner)]⟩

def finishReason (state : ResponsesState) : FinishReason := if state.sawTool then .toolUse else .stop

end ResponsesState

def responsesUsage (value : Value) : Usage :=
  let inputTokens := (value.get "input_tokens").bind Value.asU64
  { inputTokens
    contextInputTokens := inputTokens
    outputTokens := (value.get "output_tokens").bind Value.asU64
    totalTokens := (value.get "total_tokens").bind Value.asU64
    cacheReadTokens := (value.pointer ["input_tokens_details", "cached_tokens"]).bind Value.asU64
    cacheWriteTokens := none
    reasoningTokens := (value.pointer ["output_tokens_details", "reasoning_tokens"]).bind Value.asU64 }

namespace ResponsesState

/-- What is open is closed, and what runs is ended. -/
def closeAll (state : ResponsesState) : List ModelEvent × ResponsesState :=
  let (thought, state) := state.closeThinking
  let (said, state) := state.closeText
  (thought ++ said ++ state.running.map .toolCallEnd, state.endTools)

/-- `response.completed`. -/
def completed (state : ResponsesState) (owner value : Value) : Written ResponsesState :=
  let usage := ((value.pointer ["response", "usage"]).toList.map fun usage => ModelEvent.usage (responsesUsage usage))
  let (closed, state) := state.closeAll
  if state.tools.toList.any fun entry => !entry.2.started then
    (usage ++ closed, .error (.provider "OpenAI Responses completed with incomplete tool metadata"))
  else
    (usage ++ closed ++ (state.replay owner).toList.map .providerReplayState ++ [.done state.finishReason],
      .ok { state with reasoningItems := [], terminal := true })

/-- `response.incomplete`. -/
def incomplete (state : ResponsesState) : List ModelEvent × ResponsesState :=
  let (closed, state) := state.closeAll
  (closed ++ [.done .length], { state with terminal := true })

def step (owner : Value) (state : ResponsesState) (event : String) (value : Value) : Written ResponsesState :=
  match (value.textAt "type").getD event with
  | "response.output_text.delta" => written (.ok (state.textDelta value))
  | "response.output_text.done" => written (.ok (state.textDone (value.textAt "text")))
  | "response.reasoning_summary_text.delta" | "response.reasoning_text.delta" =>
    written (.ok (state.thinkingDelta value))
  | "response.reasoning_summary_text.done" | "response.reasoning_text.done" =>
    written (.ok state.closeThinking)
  | "response.output_item.added" => written (state.itemAdded value)
  | "response.output_item.done" => written (state.itemDone value)
  | "response.function_call_arguments.delta" => written (state.argumentsDelta value)
  | "response.function_call_arguments.done" => written (state.argumentsDone value)
  | "response.completed" => state.completed owner value
  | "response.incomplete" => written (.ok state.incomplete)
  | _ => ([], .ok state)

/-- Behind the loop. -/
def conclude (owner : Value) (state : ResponsesState) : Written Unit :=
  if state.terminal then ([], .ok ())
  else if state.sawCompletedItem then
    let closed := state.closeThinking.1 ++ state.closeText.1
    if state.tools.toList.any fun entry => !entry.2.ended then
      (closed, .error (.provider "OpenAI Responses stream ended with an incomplete tool call"))
    else
      (closed ++ (state.replay owner).toList.map .providerReplayState ++ [.done state.finishReason], .ok ())
  else
    ([], .error (.provider
      "OpenAI Responses stream ended without response.completed or response.incomplete"))

end ResponsesState

/-- `OpenAiResponsesProvider`, whose replay states belong to `owner`. -/
def adapter (owner : Value) : Adapter ResponsesState where
  label := "OpenAI Responses"
  readsMarker := true
  step := ResponsesState.step owner
  finish state _ := state.conclude owner

end Byok.Provider.OpenAiResponses
