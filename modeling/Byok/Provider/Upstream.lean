/-
**The stream of an upstream.** `server/src/provider/mod.rs`.

An adapter reads the server-sent events of an upstream and writes the events of `consume_model_cycle`. The
loop is the same for every adapter (`Adapter.read`); what it does at an event, and at the end, is its own.

The bytes are left out: an event comes with what `serde_json` made of its data.

* `Adapter.Runs` — an adapter goes through events that are no errors.
* `Answers` — a result that holds what was sent: the text, the reasoning, and exactly the calls.
-/

import Byok.Run.ProviderRuns
import Mathlib.Algebra.Order.Ring.Nat

namespace Byok

open List

/-! ### Fields -/

def Value.asU64 : Value → Option Nat
  | .number (.int value) => if 0 ≤ value ∧ value < 2 ^ 64 then some value.toNat else none
  | _ => none

/-- `Value::pointer` along names. -/
def Value.pointer (value : Value) (path : List String) : Option Value :=
  path.foldlM (fun value name => value.get name) value

/-- A field that is a text. -/
def Value.textAt (value : Value) (name : String) : Option String := (value.get name).bind Value.asStr

namespace Provider

open Library CycleState

/-! ### The upstream -/

/-- A server-sent event: its name, whether its data is `[DONE]`, and what its data is as JSON. -/
structure SseEvent where
  event : String
  marker : Bool
  json : Except String Value

/-- What the loop of an adapter gets. -/
inductive SseItem where
  | event (event : SseEvent)
  | failed (failure : RunFailure)
  | cancelled

def providerEventError (label : String) (value : Value) : Option RunFailure :=
  let kind := value.textAt "type"
  let directError := (value.get "error").filter (· ≠ .null)
  if !(kind == some "error" || kind == some "response.failed") && directError.isNone then none
  else
    let message := value.textAt "message"
      <|> (value.pointer ["error", "message"]).bind Value.asStr
      <|> (value.pointer ["response", "error", "message"]).bind Value.asStr
      <|> directError.bind Value.asStr
      <|> (value.pointer ["response", "error"]).bind Value.asStr
    some (.provider (label ++ " error: " ++
      message.getD "provider returned an error event without a message"))

/-- The events that a piece of an adapter has written, and how it ended. -/
abbrev Written (σ : Type) := List ModelEvent × Except RunFailure σ

/-- A piece that writes nothing if it fails. -/
def written {σ : Type} : Except RunFailure (List ModelEvent × σ) → Written σ
  | .ok (events, state) => (events, .ok state)
  | .error failure => ([], .error failure)

/-- What is particular to an adapter. -/
structure Adapter (σ : Type) where
  label : String
  readsMarker : Bool
  step : σ → String → Value → Written σ
  /-- Behind the loop, which may have ended at the marker. -/
  finish : σ → Bool → Written Unit

namespace Adapter

variable {σ : Type} (adapter : Adapter σ)

/-- The events at the end of the stream. -/
def close (state : σ) (marker : Bool) : List StreamItem :=
  match adapter.finish state marker with
  | (events, .error failure) => events.map .event ++ [.error failure]
  | (events, .ok ()) => events.map .event

/-- The loop. -/
def read (state : σ) : List SseItem → List StreamItem
  | [] => adapter.close state false
  | .cancelled :: _ => []
  | .failed failure :: _ => [.error failure]
  | .event sse :: items =>
    if adapter.readsMarker && sse.marker then adapter.close state true
    else
      match sse.json with
      | .error error => [.error (.protocol error)]
      | .ok value =>
        match providerEventError adapter.label value with
        | some failure => [.error failure]
        | none =>
          match adapter.step state sse.event value with
          | (events, .error failure) => events.map .event ++ [.error failure]
          | (events, .ok next) => events.map .event ++ read next items

/-- `Provider::stream`, once the upstream has answered. -/
def stream (initial : σ) (callId : String) (items : List SseItem) : List StreamItem :=
  .event (.start callId) :: adapter.read initial items

/-! ### Runs -/

/-- An event that is JSON and no error. -/
structure Carries (label : String) (sse : SseEvent) (value : Value) : Prop where
  plain : sse.marker = false
  json : sse.json = .ok value
  clean : providerEventError label value = none

/-- The adapter goes through some events, and writes others. -/
inductive Runs : σ → List SseEvent → List ModelEvent → σ → Prop
  | none (state : σ) : Runs state [] [] state
  | more {state next last : σ} {sse : SseEvent} {value : Value} {sses : List SseEvent}
      {events more : List ModelEvent} (carries : Carries adapter.label sse value)
      (stepped : adapter.step state sse.event value = (events, .ok next))
      (rest : Runs next sses more last) : Runs state (sse :: sses) (events ++ more) last

variable {adapter} {state between last : σ} {sses others : List SseEvent} {events more : List ModelEvent}

theorem Runs.one {next : σ} {sse : SseEvent} {value : Value} (carries : Carries adapter.label sse value)
    (stepped : adapter.step state sse.event value = (events, .ok next)) :
    adapter.Runs state [sse] events next := by
  have run := Runs.more carries stepped (.none next)
  rwa [append_nil] at run

theorem Runs.append (first : adapter.Runs state sses events between)
    (second : adapter.Runs between others more last) :
    adapter.Runs state (sses ++ others) (events ++ more) last := by
  induction first with
  | none => exact second
  | more carries stepped _ ih =>
    rw [append_assoc]
    exact .more carries stepped (ih second)

theorem read_of_runs (runs : adapter.Runs state sses events last) (items : List SseItem) :
    adapter.read state (sses.map .event ++ items) = events.map .event ++ adapter.read last items := by
  induction runs with
  | none => rfl
  | more carries stepped _ ih =>
    rw [map_append, append_assoc, ← ih]
    simp only [map_cons, cons_append, read, carries.plain, Bool.and_false, Bool.false_eq_true,
      if_false, carries.json, carries.clean, stepped]

end Adapter

/-! ### Followed runs -/

/-- The adapter goes through some events, and the model call reads what it writes. -/
def Follows {σ : Type} (adapter : Adapter σ) (parse : String → Except String Value) (state : σ)
    (cycle : CycleState) (sses : List SseEvent) (last : σ) (later : CycleState) : Prop :=
  ∃ events, adapter.Runs state sses events last ∧ Reads parse cycle events later

section

variable {σ : Type} {adapter : Adapter σ} {parse : String → Except String Value} {state between last : σ}
  {cycle middle later : CycleState} {sses others : List SseEvent}

theorem Follows.none : Follows adapter parse state cycle [] state cycle :=
  ⟨[], .none state, .none⟩

theorem Follows.one {sse : SseEvent} {value : Value} {events : List ModelEvent}
    (carries : Adapter.Carries adapter.label sse value)
    (stepped : adapter.step state sse.event value = (events, .ok last))
    (reads : Reads parse cycle events later) : Follows adapter parse state cycle [sse] last later :=
  ⟨events, .one carries stepped, reads⟩

theorem Follows.append (first : Follows adapter parse state cycle sses between middle)
    (second : Follows adapter parse between middle others last later) :
    Follows adapter parse state cycle (sses ++ others) last later := by
  obtain ⟨events, runs, reads⟩ := first
  obtain ⟨more, runs', reads'⟩ := second
  exact ⟨events ++ more, runs.append runs', reads.append reads'⟩

theorem follows_of_steps {invariant : List SseEvent → σ → CycleState → Prop} {sses : List SseEvent}
    (start : invariant [] state cycle)
    (steps : ∀ before sse after state cycle, sses = before ++ sse :: after → invariant before state cycle →
      ∃ next later, Follows adapter parse state cycle [sse] next later ∧
        invariant (before ++ [sse]) next later) :
    ∃ last later, Follows adapter parse state cycle sses last later ∧ invariant sses last later := by
  have through : ∀ before after, sses = before ++ after →
      ∃ last later, Follows adapter parse state cycle before last later ∧ invariant before last later := by
    intro before
    induction before using List.reverseRecOn with
    | nil => exact fun _ _ => ⟨state, cycle, .none, start⟩
    | append_singleton before sse ih =>
      intro after equal
      rw [append_assoc] at equal
      obtain ⟨between, middle, first, holds⟩ := ih _ equal
      obtain ⟨last, later, second, kept⟩ := steps before sse after between middle equal holds
      exact ⟨last, later, first.append second, kept⟩
  exact through sses [] (append_nil sses).symm

/-- The model call after the `Start`. -/
def begun (callId : String) : CycleState := { initial with modelCallId := some callId }

/-- **The answer to a stream that is followed to its `Done`.** -/
theorem consume_stream {client : ClientChannel} {callId : String} {items : List SseItem}
    {body : List ModelEvent} {reason : FinishReason} {ended : CycleState} (result : CompletedCycle)
    (stays : client.closes = false) (follows : Follows adapter parse state (begun callId) sses last later)
    (ends : adapter.read last items = (body ++ [ModelEvent.done reason]).map .event)
    (reads : Reads parse later body ended) (answer : ended.modelCallId = some callId)
    (closed : ended.hasOpenBlock = false) :
    (consumeModelCycle parse client (adapter.stream state callId (sses.map .event ++ items))).2 = .ok result ↔
      reason ≠ .length ∧ (reason = .toolUse ↔ ended.tools.toList ≠ []) ∧
      result = ⟨⟨callId, ended.text, ended.reasoning, ended.replayState,
        ended.tools.toList.map fun entry => entry.2.call⟩, ended.usage, reason⟩ := by
  obtain ⟨events, runs, followed⟩ := follows
  have whole : adapter.stream state callId (sses.map .event ++ items) =
      ((([ModelEvent.start callId] ++ events) ++ body) ++ [ModelEvent.done reason]).map .event := by
    rw [Adapter.stream, Adapter.read_of_runs runs, ends]
    simp only [map_append, append_assoc]
    rfl
  have started : Reads parse initial [.start callId] (begun callId) := reads_start callId rfl
  rw [whole]
  exact consume_of_reads stays ((started.append followed).append reads) answer closed

end

/-! ### What was sent -/

/-- A call that an upstream sends. Its arguments are an object, and have a text if they come as one. -/
structure SentCall where
  index : Nat
  callId : String
  name : String
  text : Option String
  arguments : List (String × Value)

/-- The call of an answer that was sent as `sent`; `consume_model_cycle` normalizes its name. -/
structure SentCall.Arrives (sent : SentCall) (modelCallId : String) (call : ToolCall) : Prop where
  index : call.index = sent.index
  callId : call.callId = sent.callId
  modelCallId : call.modelCallId = modelCallId
  name : call.name = normalizeToolName sent.name
  text : ∀ text ∈ sent.text, call.argumentsText = text
  arguments : call.arguments = .object sent.arguments
  argumentError : call.argumentError = none

/-- What an upstream sends in one answer. -/
structure SentAnswer where
  text : String
  reasoning : String
  calls : List SentCall

/-- A result that holds what was sent. -/
structure Answers (sent : SentAnswer) (id : String) (result : CompletedCycle) : Prop where
  modelCallId : result.modelCallId = id
  text : result.text = sent.text
  reasoning : result.reasoning = sent.reasoning
  sorted : result.calls.Pairwise fun first second => first.index < second.index
  only : ∀ call ∈ result.calls, ∃ origin ∈ sent.calls, origin.Arrives id call
  all : ∀ origin ∈ sent.calls, ∃ call ∈ result.calls, origin.Arrives id call

section

variable {parse : String → Except String Value} {sent : SentAnswer} {id : String}
  {tools : Std.TreeMap Nat OpenTool}

theorem closed_object {text : String} {fields : List (String × Value)} (name : String)
    (some : trim text ≠ "") (object : parse text = .ok (.object fields)) :
    closedArguments parse name text = (.object fields, none) := by
  rw [closedArguments, if_neg some, object]

theorem arrives_of_close {origin : SentCall} {text : String}
    (arguments : closedArguments parse (normalizeToolName origin.name) text = (.object origin.arguments, none))
    (same : ∀ other ∈ origin.text, text = other) :
    origin.Arrives id ((holding id origin.index origin.callId origin.name text).close parse).call where
  index := rfl
  callId := rfl
  modelCallId := rfl
  name := rfl
  text := same
  arguments := congrArg Prod.fst arguments
  argumentError := congrArg Prod.snd arguments

theorem answers_of_tools {replay : Option ProviderReplayState} {usage : Option Usage} {reason : FinishReason}
    (only : ∀ (index : Nat) (tool : OpenTool), tools[index]? = some tool →
      ∃ origin ∈ sent.calls, origin.index = index)
    (all : ∀ origin ∈ sent.calls, ∃ tool, tools[origin.index]? = some tool ∧ origin.Arrives id tool.call) :
    Answers sent id ⟨⟨id, sent.text, sent.reasoning, replay, tools.toList.map fun entry => entry.2.call⟩,
      usage, reason⟩ := by
  have each : ∀ entry ∈ tools.toList, ∃ origin ∈ sent.calls, origin.index = entry.1 ∧
      origin.Arrives id entry.2.call := by
    intro entry member
    have found := Std.TreeMap.mem_toList_iff_getElem?_eq_some.mp member
    obtain ⟨origin, held, same⟩ := only entry.1 entry.2 found
    obtain ⟨tool, known, arrives⟩ := all origin held
    rw [same, found] at known
    obtain rfl := Option.some.inj known
    exact ⟨origin, held, same, arrives⟩
  refine ⟨rfl, rfl, rfl, ?sorted, fun call member => ?only, fun origin held => ?all⟩
  case sorted =>
    show (tools.toList.map fun entry => entry.2.call).Pairwise _
    rw [pairwise_map]
    refine Std.TreeMap.ordered_keys_toList.imp_of_mem fun {first second} left right less => ?_
    obtain ⟨_, -, same, arrives⟩ := each first left
    obtain ⟨_, -, same', arrives'⟩ := each second right
    rw [arrives.index, arrives'.index, same, same']
    exact Nat.compare_eq_lt.mp less
  case only =>
    obtain ⟨entry, inside, rfl⟩ := mem_map.mp member
    obtain ⟨origin, held, -, arrives⟩ := each entry inside
    exact ⟨origin, held, arrives⟩
  case all =>
    obtain ⟨tool, found, arrives⟩ := all origin held
    refine ⟨tool.call, mem_map.mpr ⟨(origin.index, tool), ?_, rfl⟩, arrives⟩
    exact Std.TreeMap.mem_toList_iff_getElem?_eq_some.mpr found

theorem arrives_of_answers {result : CompletedCycle} (answers : Answers sent id result)
    (calls : result.calls = tools.toList.map fun entry => entry.2.call)
    (keyed : ∀ (index : Nat) (tool : OpenTool), tools[index]? = some tool → tool.call.index = index)
    {origin : SentCall} (held : origin ∈ sent.calls) {tool : OpenTool}
    (found : tools[origin.index]? = some tool) : origin.Arrives id tool.call := by
  obtain ⟨call, member, arrives⟩ := answers.all origin held
  rw [calls] at member
  obtain ⟨⟨index, other⟩, inside, rfl⟩ := mem_map.mp member
  have known := Std.TreeMap.mem_toList_iff_getElem?_eq_some.mp inside
  have same : index = origin.index := (keyed index other known).symm.trans arrives.index
  rw [same, found] at known
  obtain rfl := Option.some.inj known
  exact arrives

end

end Provider

end Byok
