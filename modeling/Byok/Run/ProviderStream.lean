/-
**Well-formed provider streams.**

What a provider may send, said without a machine: the events of each kind, taken out of the stream, are
blocks (`WellFormedStream`). The machine of a model call is a product of automata, one for each kind.

* `ModelEvent.textMark` and its like — what each part of the machine sees of an event.
* `observes_text` and its like — an accepted event moves each part as its automaton does.
* `handle_of_takes` — an event that every automaton takes is accepted.
-/

import Byok.Library.Blocks
import Byok.Run.ModelCycle

namespace Byok

open Library

/-! ### What an event is to the parts of the machine -/

namespace ModelEvent

/-- The stream as a block that `Start` opens and that is never closed. -/
def startMark : ModelEvent → Option Mark
  | .start _ => some .opens
  | .textStart | .textDelta _ | .textEnd => some .part
  | .thinkingStart | .thinkingDelta _ | .thinkingEnd => some .part
  | .toolCallStart _ _ _ | .toolCallArgumentsDelta _ _ | .toolCallEnd _ => some .part
  | .thinkingSignature _ | .stopSequence _ | .providerReplayState _ | .usage _ | .done _ => none

def textMark : ModelEvent → Option Mark
  | .textStart => some .opens
  | .textDelta _ => some .part
  | .textEnd => some .closes
  | _ => none

def thinkingMark : ModelEvent → Option Mark
  | .thinkingStart => some .opens
  | .thinkingDelta _ => some .part
  | .thinkingEnd => some .closes
  | _ => none

/-- The marks of one tool index. -/
def toolMark (index : Nat) : ModelEvent → Option Mark
  | .toolCallStart other _ _ => if other = index then some .opens else none
  | .toolCallArgumentsDelta other _ => if other = index then some .part else none
  | .toolCallEnd other => if other = index then some .closes else none
  | _ => none

def startId : ModelEvent → Option String
  | .start id => some id
  | _ => none

def toolCallId : ModelEvent → Option String
  | .toolCallStart _ callId _ => some callId
  | _ => none

def usage? : ModelEvent → Option Usage
  | .usage value => some value
  | _ => none

def replayState? : ModelEvent → Option ProviderReplayState
  | .providerReplayState value => some value
  | _ => none

def doneReason : ModelEvent → Option FinishReason
  | .done reason => some reason
  | _ => none

def textPart : ModelEvent → Option String
  | .textDelta delta => some delta
  | _ => none

def thinkingPart : ModelEvent → Option String
  | .thinkingDelta delta => some delta
  | _ => none

def argumentsPart (index : Nat) : ModelEvent → Option String
  | .toolCallArgumentsDelta other delta => if other = index then some delta else none
  | _ => none

/-- What the client gets of an event of the answer `modelCallId`. -/
def forwarded (modelCallId : String) : ModelEvent → Option RunEvent
  | .textStart => some .textStart
  | .textDelta delta => some (.textDelta delta)
  | .textEnd => some .textEnd
  | .thinkingStart => some .thinkingStart
  | .thinkingDelta delta => some (.thinkingDelta delta)
  | .thinkingEnd => some .thinkingEnd
  | .toolCallStart index callId name =>
    some (.toolCallStart index callId (normalizeToolName name) modelCallId)
  | .toolCallArgumentsDelta index delta => some (.toolCallArgumentsDelta index delta)
  | .toolCallEnd index => some (.toolCallEnd index)
  | .usage value => some (.usage value)
  | .start _ | .thinkingSignature _ | .stopSequence _ | .providerReplayState _ | .done _ => none

end ModelEvent

open ModelEvent

/-! ### Well-formed streams -/

/-- A provider stream before its `Done`, and the reason that the `Done` gives. -/
structure WellFormedStream (body : List ModelEvent) (reason : FinishReason) : Prop where
  unfinished : body.filterMap doneReason = []
  starts : ∃ parts, body.filterMap startMark = Mark.unclosed parts
  text : Blocks (body.filterMap textMark)
  thinking : Blocks (body.filterMap thinkingMark)
  tools : ∀ index, body.filterMap (toolMark index) = [] ∨
    ∃ parts, body.filterMap (toolMark index) = Mark.block parts
  callIds : (body.filterMap toolCallId).Nodup
  usage : (body.filterMap usage?).length ≤ 1
  replayState : (body.filterMap replayState?).length ≤ 1
  complete : reason ≠ .length
  calls : reason = .toolUse ↔ body.filterMap toolCallId ≠ []

/-- The call that a `ToolCallStart` begins and later events of its index complete. -/
def completedCall (parse : String → Except String Value) (body : List ModelEvent) (modelCallId : String)
    (index : Nat) (callId name : String) : ToolCall :=
  let text := String.join (body.filterMap (argumentsPart index))
  let arguments := closedArguments parse (normalizeToolName name) text
  ⟨index, callId, modelCallId, normalizeToolName name, text, arguments.1, arguments.2⟩

/-- What the answer to a stream holds. -/
structure Gathers (parse : String → Except String Value) (body : List ModelEvent)
    (reason : FinishReason) (result : CompletedCycle) : Prop where
  modelCallId : .start result.modelCallId ∈ body
  text : result.text = String.join (body.filterMap textPart)
  reasoning : result.reasoning = String.join (body.filterMap thinkingPart)
  replayState : body.filterMap replayState? = result.replayState.toList
  usage : body.filterMap usage? = result.usage.toList
  finishReason : result.finishReason = reason
  sorted : result.calls.Pairwise fun first second => first.index < second.index
  calls : ∀ call, call ∈ result.calls ↔ ∃ index callId name,
    .toolCallStart index callId name ∈ body ∧
      call = completedCall parse body result.modelCallId index callId name
  objects : ∀ call ∈ result.calls, ∃ fields, call.arguments = .object fields
  errors : ∀ call ∈ result.calls, call.argumentError.isSome ↔
    trim call.argumentsText ≠ "" ∧ ¬ ∃ fields, parse call.argumentsText = .ok (.object fields)

/-! ### What an accepted event does -/

/-- What the client gets of an event that is sent. -/
def ClientChannel.adds (client : ClientChannel) (event : RunEvent) : List RunEvent :=
  match client with
  | .absent => []
  | .live | .closing _ => [event]

/-- A client that may go away. -/
def ClientChannel.closes : ClientChannel → Bool
  | .closing _ => true
  | .absent | .live => false

namespace CycleState

variable {parse : String → Except String Value} {client : ClientChannel}

/-- How far the stream, and a tool, has come. -/
def startPhase (state : CycleState) : Phase := if state.modelCallId.isSome then .running else .fresh

def toolPhase (index : Nat) (state : CycleState) : Phase :=
  match state.tools[index]? with
  | none => .fresh
  | some tool => if tool.ended then .ended else .running

/-- The events that are accepted, and what they do. -/
inductive Handled (parse : String → Except String Value) (client : ClientChannel)
    (state : CycleState) : ModelEvent → CycleState → Prop
  | start {id : String} (fresh : state.modelCallId = none) :
      Handled parse client state (.start id) { state with modelCallId := some id }
  | textStart (started : state.modelCallId.isSome) (closed : state.textOpen = false) :
      Handled parse client state .textStart
        { state with textOpen := true, sent := state.sent ++ client.adds .textStart }
  | textDelta {delta : String} (running : state.textOpen) :
      Handled parse client state (.textDelta delta)
        { state with text := state.text ++ delta, sent := state.sent ++ client.adds (.textDelta delta) }
  | textEnd (running : state.textOpen) :
      Handled parse client state .textEnd
        { state with textOpen := false, sent := state.sent ++ client.adds .textEnd }
  | thinkingStart (started : state.modelCallId.isSome) (closed : state.thinkingOpen = false) :
      Handled parse client state .thinkingStart
        { state with thinkingOpen := true, sent := state.sent ++ client.adds .thinkingStart }
  | thinkingDelta {delta : String} (running : state.thinkingOpen) :
      Handled parse client state (.thinkingDelta delta)
        { state with
          reasoning := state.reasoning ++ delta
          sent := state.sent ++ client.adds (.thinkingDelta delta) }
  | thinkingEnd (running : state.thinkingOpen) :
      Handled parse client state .thinkingEnd
        { state with thinkingOpen := false, sent := state.sent ++ client.adds .thinkingEnd }
  | thinkingSignature {signature : String} :
      Handled parse client state (.thinkingSignature signature) state
  | stopSequence {sequence : String} : Handled parse client state (.stopSequence sequence) state
  | toolCallStart {index : Nat} {callId name modelCallId : String}
      (started : state.modelCallId = some modelCallId) (unused : state.tools[index]? = none)
      (fresh : callId ∉ state.callIds) :
      Handled parse client state (.toolCallStart index callId name)
        { state with
          tools := state.tools.insert index (OpenTool.start modelCallId index callId name)
          callIds := callId :: state.callIds
          sent := state.sent ++
            client.adds (.toolCallStart index callId (normalizeToolName name) modelCallId) }
  | toolCallArgumentsDelta {index : Nat} {delta : String} {tool : OpenTool}
      (found : state.tools[index]? = some tool) (running : tool.ended = false) :
      Handled parse client state (.toolCallArgumentsDelta index delta)
        { state with
          tools := state.tools.insert index (tool.extend delta)
          sent := state.sent ++ client.adds (.toolCallArgumentsDelta index delta) }
  | toolCallEnd {index : Nat} {tool : OpenTool}
      (found : state.tools[index]? = some tool) (running : tool.ended = false) :
      Handled parse client state (.toolCallEnd index)
        { state with
          tools := state.tools.insert index (tool.close parse)
          sent := state.sent ++ client.adds (.toolCallEnd index) }
  | providerReplayState {replay : ProviderReplayState} (first : state.replayState = none) :
      Handled parse client state (.providerReplayState replay) { state with replayState := some replay }
  | usage {usage : Usage} (first : state.usage = none) :
      Handled parse client state (.usage usage)
        { state with usage := some usage, sent := state.sent ++ client.adds (.usage usage) }
  | done {reason : FinishReason} (started : state.modelCallId.isSome)
      (closed : state.hasOpenBlock = false) :
      Handled parse client state (.done reason) { state with finish := some reason }

theorem send_some {state next : CycleState} {event : RunEvent}
    (sent : state.send client event = some next) :
    next = { state with sent := state.sent ++ client.adds event } := by
  cases client with
  | absent =>
    obtain rfl := Option.some.inj sent
    simp [ClientChannel.adds]
  | live => exact (Option.some.inj sent).symm
  | closing after =>
    simp only [send] at sent
    by_cases room : state.sent.length < after
    · rw [if_pos room] at sent
      exact (Option.some.inj sent).symm
    · rw [if_neg room] at sent
      cases sent

theorem forward_ok {state next : CycleState} {event : RunEvent}
    (sent : forward client state event = .ok next) :
    next = { state with sent := state.sent ++ client.adds event } := by
  unfold forward at sent
  cases equal : state.send client event with
  | none =>
    rw [equal] at sent
    cases sent
  | some other =>
    rw [equal] at sent
    cases sent
    exact send_some equal

theorem unless_refused {next : CycleState} {guard : Bool} {message : String} {rest : Step}
    {refused : CycleState}
    (ok : (if guard then refuse refused message else rest) = .ok next) :
    guard = false ∧ rest = .ok next := by
  cases guard with
  | false => exact ⟨rfl, ok⟩
  | true => cases ok

theorem handle_ok {state next : CycleState} {event : ModelEvent}
    (ok : state.handle parse client event = .ok next) : Handled parse client state event next := by
  cases event with
  | start id =>
    obtain ⟨fresh, ok⟩ := unless_refused ok
    cases ok
    exact .start (by simpa using fresh)
  | textStart =>
    obtain ⟨started, ok⟩ := unless_refused ok
    obtain ⟨closed, ok⟩ := unless_refused ok
    obtain rfl := forward_ok ok
    exact .textStart (by simpa [Option.isSome_iff_ne_none] using started) closed
  | textDelta delta =>
    obtain ⟨running, ok⟩ := unless_refused ok
    obtain rfl := forward_ok ok
    exact .textDelta (by simpa using running)
  | textEnd =>
    obtain ⟨running, ok⟩ := unless_refused ok
    obtain rfl := forward_ok ok
    exact .textEnd (by simpa using running)
  | thinkingStart =>
    obtain ⟨started, ok⟩ := unless_refused ok
    obtain ⟨closed, ok⟩ := unless_refused ok
    obtain rfl := forward_ok ok
    exact .thinkingStart (by simpa [Option.isSome_iff_ne_none] using started) closed
  | thinkingDelta delta =>
    obtain ⟨running, ok⟩ := unless_refused ok
    obtain rfl := forward_ok ok
    exact .thinkingDelta (by simpa using running)
  | thinkingSignature signature =>
    cases ok
    exact .thinkingSignature
  | thinkingEnd =>
    obtain ⟨running, ok⟩ := unless_refused ok
    obtain rfl := forward_ok ok
    exact .thinkingEnd (by simpa using running)
  | toolCallStart index callId name =>
    simp only [handle, startTool] at ok
    split at ok
    case h_1 => cases ok
    case h_2 modelCallId started =>
      obtain ⟨unused, ok⟩ := unless_refused ok
      obtain ⟨fresh, ok⟩ := unless_refused ok
      obtain rfl := forward_ok ok
      exact .toolCallStart started (Std.TreeMap.getElem?_eq_none_of_contains_eq_false unused)
        (by simpa using fresh)
  | toolCallArgumentsDelta index delta =>
    simp only [handle, extendTool] at ok
    cases found : state.tools[index]? with
    | none =>
      rw [found] at ok
      cases ok
    | some tool =>
      rw [found] at ok
      obtain ⟨running, ok⟩ := unless_refused ok
      obtain rfl := forward_ok ok
      exact .toolCallArgumentsDelta found running
  | toolCallEnd index =>
    simp only [handle, endTool] at ok
    cases found : state.tools[index]? with
    | none =>
      rw [found] at ok
      cases ok
    | some tool =>
      rw [found] at ok
      obtain ⟨running, ok⟩ := unless_refused ok
      obtain rfl := forward_ok ok
      exact .toolCallEnd found running
  | providerReplayState replay =>
    obtain ⟨first, ok⟩ := unless_refused ok
    cases ok
    exact .providerReplayState (by simpa using first)
  | usage usage =>
    obtain ⟨first, ok⟩ := unless_refused ok
    cases sent : send client { state with usage := some usage } (.usage usage) with
    | none =>
      rw [sent] at ok
      cases ok
    | some other =>
      rw [sent] at ok
      cases ok
      rw [send_some sent]
      exact .usage (by simpa using first)
  | stopSequence sequence =>
    cases ok
    exact .stopSequence
  | done reason =>
    obtain ⟨started, ok⟩ := unless_refused ok
    obtain ⟨closed, ok⟩ := unless_refused ok
    cases ok
    exact .done (by simpa [Option.isSome_iff_ne_none] using started) closed

/-- Whatever is open was begun after the `Start`. -/
structure Started (state : CycleState) : Prop where
  text : state.textOpen → state.modelCallId.isSome
  thinking : state.thinkingOpen → state.modelCallId.isSome
  tools : ∀ (index : Nat) (tool : OpenTool), state.tools[index]? = some tool → state.modelCallId.isSome

theorem initial_started : initial.Started where
  text running := by cases running
  thinking running := by cases running
  tools index tool found := by
    rw [initial, Std.TreeMap.getElem?_emptyc] at found
    cases found

theorem keeps_started : Keeps (handle parse client) Started := by
  intro state event next started ok
  cases handle_ok ok with
  | start => exact ⟨fun _ => rfl, fun _ => rfl, fun _ _ _ => rfl⟩
  | textStart here => exact ⟨fun _ => here, started.thinking, started.tools⟩
  | textEnd => exact ⟨fun running => (Bool.false_ne_true running).elim, started.thinking, started.tools⟩
  | thinkingStart here => exact ⟨started.text, fun _ => here, started.tools⟩
  | thinkingEnd =>
    exact ⟨started.text, fun running => (Bool.false_ne_true running).elim, started.tools⟩
  | toolCallStart here =>
    have some : state.modelCallId.isSome := by rw [here, Option.isSome_some]
    exact ⟨started.text, started.thinking, fun _ _ _ => some⟩
  | toolCallArgumentsDelta found =>
    exact ⟨started.text, started.thinking, fun _ _ _ => started.tools _ _ found⟩
  | toolCallEnd found =>
    exact ⟨started.text, started.thinking, fun _ _ _ => started.tools _ _ found⟩
  | _ => exact ⟨started.text, started.thinking, started.tools⟩

/-! ### The automata that the machine is made of -/

theorem observes_start : Observes (handle parse client) Started startPhase Phase.advance startMark := by
  intro state event next started ok
  cases handle_ok ok with
  | start fresh => simp [startPhase, startMark, fresh, Phase.advance]
  | textStart here => simp [startPhase, startMark, here, Phase.advance]
  | textDelta running => simp [startPhase, startMark, started.text running, Phase.advance]
  | textEnd running => simp [startPhase, startMark, started.text running, Phase.advance]
  | thinkingStart here => simp [startPhase, startMark, here, Phase.advance]
  | thinkingDelta running => simp [startPhase, startMark, started.thinking running, Phase.advance]
  | thinkingEnd running => simp [startPhase, startMark, started.thinking running, Phase.advance]
  | toolCallStart here => simp [startPhase, startMark, here, Phase.advance]
  | toolCallArgumentsDelta found => simp [startPhase, startMark, started.tools _ _ found, Phase.advance]
  | toolCallEnd found => simp [startPhase, startMark, started.tools _ _ found, Phase.advance]
  | _ => rfl

theorem observes_startId : Observes (handle parse client) Started modelCallId seen startId := by
  intro state event next _ ok
  cases handle_ok ok with
  | start fresh => simp [startId, seen, fresh]
  | _ => rfl

theorem observes_text : Observes (handle parse client) Started textOpen toggle textMark := by
  intro state event next _ ok
  cases handle_ok ok with
  | textStart _ closed => simp [textMark, closed, toggle]
  | textDelta running => simp [textMark, running, toggle]
  | textEnd running => simp [textMark, running, toggle]
  | _ => rfl

theorem observes_thinking : Observes (handle parse client) Started thinkingOpen toggle thinkingMark := by
  intro state event next _ ok
  cases handle_ok ok with
  | thinkingStart _ closed => simp [thinkingMark, closed, toggle]
  | thinkingDelta running => simp [thinkingMark, running, toggle]
  | thinkingEnd running => simp [thinkingMark, running, toggle]
  | _ => rfl

theorem found_insert (tools : Std.TreeMap Nat OpenTool) (index other : Nat) (tool : OpenTool) :
    (tools.insert other tool)[index]? = if other = index then some tool else tools[index]? := by
  rw [Std.TreeMap.getElem?_insert]
  simp only [Std.compare_eq_iff_eq]

theorem observes_tool (index : Nat) :
    Observes (handle parse client) Started (toolPhase index) Phase.advance (toolMark index) := by
  intro state event next _ ok
  cases handle_ok ok with
  | @toolCallStart other callId name modelCallId _ unused =>
    by_cases same : other = index
    · subst same
      simp [toolPhase, toolMark, unused, OpenTool.start, Phase.advance]
    · simp [toolPhase, toolMark, found_insert, same]
  | @toolCallArgumentsDelta other delta tool found running =>
    by_cases same : other = index
    · subst same
      simp [toolPhase, toolMark, found, running, OpenTool.extend, Phase.advance]
    · simp [toolPhase, toolMark, found_insert, same]
  | @toolCallEnd other tool found running =>
    by_cases same : other = index
    · subst same
      simp [toolPhase, toolMark, found, running, OpenTool.close, Phase.advance]
    · simp [toolPhase, toolMark, found_insert, same]
  | _ => rfl

theorem observes_callIds : Observes (handle parse client) Started callIds addFresh toolCallId := by
  intro state event next _ ok
  cases handle_ok ok with
  | toolCallStart _ _ fresh => simp [toolCallId, addFresh, fresh]
  | _ => rfl

theorem observes_usage : Observes (handle parse client) Started CycleState.usage seen usage? := by
  intro state event next _ ok
  cases handle_ok ok with
  | usage first => simp [usage?, seen, first]
  | _ => rfl

theorem observes_replayState :
    Observes (handle parse client) Started CycleState.replayState seen replayState? := by
  intro state event next _ ok
  cases handle_ok ok with
  | providerReplayState first => simp [replayState?, seen, first]
  | _ => rfl

/-! ### The streams that the machine takes -/

/-- Every automaton takes its marks of a stream. -/
structure Takes (state : CycleState) (body : List ModelEvent) : Prop where
  unfinished : body.filterMap doneReason = []
  starts : ((body.filterMap startMark).foldlM Phase.advance state.startPhase).isSome
  text : ((body.filterMap textMark).foldlM toggle state.textOpen).isSome
  thinking : ((body.filterMap thinkingMark).foldlM toggle state.thinkingOpen).isSome
  tools : ∀ index, ((body.filterMap (toolMark index)).foldlM Phase.advance (state.toolPhase index)).isSome
  callIds : ((body.filterMap toolCallId).foldlM addFresh state.callIds).isSome
  usage : ((body.filterMap usage?).foldlM seen state.usage).isSome
  replayState : ((body.filterMap replayState?).foldlM seen state.replayState).isSome

theorem forward_of_open (open' : client.closes = false) (state : CycleState) (event : RunEvent) :
    ∃ next, forward client state event = .ok next := by
  cases client with
  | absent => exact ⟨_, rfl⟩
  | live => exact ⟨_, rfl⟩
  | closing => cases open'

theorem startPhase_fresh {state : CycleState} : state.startPhase = .fresh ↔ state.modelCallId = none := by
  cases here : state.modelCallId <;> simp [startPhase, here]

theorem startPhase_running {state : CycleState} :
    state.startPhase = .running ↔ state.modelCallId.isSome := by
  cases here : state.modelCallId <;> simp [startPhase, here]

theorem toolPhase_fresh {state : CycleState} {index : Nat} :
    state.toolPhase index = .fresh ↔ state.tools[index]? = none := by
  cases found : state.tools[index]? with
  | none => simp [toolPhase, found]
  | some tool => cases ended : tool.ended <;> simp [toolPhase, found, ended]

theorem toolPhase_running {state : CycleState} {index : Nat} :
    state.toolPhase index = .running ↔ ∃ tool, state.tools[index]? = some tool ∧ tool.ended = false := by
  cases found : state.tools[index]? with
  | none => simp [toolPhase, found]
  | some tool => cases ended : tool.ended <;> simp [toolPhase, found, ended]

theorem handle_of_takes (open' : client.closes = false) {state : CycleState} {event : ModelEvent}
    {body : List ModelEvent} (takes : Takes state (event :: body)) :
    ∃ next, state.handle parse client event = .ok next := by
  have starts := accepts_head takes.starts
  have text := accepts_head takes.text
  have thinking := accepts_head takes.thinking
  have tools := fun index => accepts_head (takes.tools index)
  have part : Mark.part ≠ Mark.opens := by decide
  have closes : Mark.closes ≠ Mark.opens := by decide
  cases event with
  | start id =>
    have fresh := startPhase_fresh.mp (advance_opens.mp starts)
    simp [handle, fresh]
  | textStart =>
    have started := startPhase_running.mp ((advance_inside part).mp starts)
    simp only [handle, Option.isNone_eq_false_iff.mpr started, toggle_opens.mp text]
    exact forward_of_open open' _ _
  | textDelta delta =>
    simp only [handle, (toggle_inside part).mp text]
    exact forward_of_open open' _ _
  | textEnd =>
    simp only [handle, (toggle_inside closes).mp text]
    exact forward_of_open open' _ _
  | thinkingStart =>
    have started := startPhase_running.mp ((advance_inside part).mp starts)
    simp only [handle, Option.isNone_eq_false_iff.mpr started, toggle_opens.mp thinking]
    exact forward_of_open open' _ _
  | thinkingDelta delta =>
    simp only [handle, (toggle_inside part).mp thinking]
    exact forward_of_open open' _ _
  | thinkingSignature signature => exact ⟨state, rfl⟩
  | thinkingEnd =>
    simp only [handle, (toggle_inside closes).mp thinking]
    exact forward_of_open open' _ _
  | toolCallStart index callId name =>
    have started := startPhase_running.mp ((advance_inside part).mp starts)
    obtain ⟨modelCallId, started⟩ := Option.isSome_iff_exists.mp started
    have unused := tools index
    simp only [toolMark, if_true, advanceAt_some] at unused
    have unused := toolPhase_fresh.mp (advance_opens.mp unused)
    have fresh := addFresh_isSome.mp (accepts_head takes.callIds)
    rw [← List.contains_iff_mem, Bool.not_eq_true] at fresh
    have free : state.tools.contains index = false := by
      rw [Std.TreeMap.contains_eq_isSome_getElem?, unused]
      rfl
    simp only [handle, startTool, started, free, fresh]
    exact forward_of_open open' _ _
  | toolCallArgumentsDelta index delta =>
    have running := tools index
    simp only [toolMark, if_true, advanceAt_some] at running
    obtain ⟨tool, found, running⟩ := toolPhase_running.mp ((advance_inside part).mp running)
    simp only [handle, extendTool, found, running]
    exact forward_of_open open' _ _
  | toolCallEnd index =>
    have running := tools index
    simp only [toolMark, if_true, advanceAt_some] at running
    obtain ⟨tool, found, running⟩ := toolPhase_running.mp ((advance_inside closes).mp running)
    simp only [handle, endTool, found, running]
    exact forward_of_open open' _ _
  | providerReplayState replay =>
    have first := seen_isSome.mp (accepts_head takes.replayState)
    simp [handle, first]
  | usage usage =>
    have first := seen_isSome.mp (accepts_head takes.usage)
    cases client with
    | absent => simp [handle, first, send]
    | live => simp [handle, first, send]
    | closing => cases open'
  | stopSequence sequence => exact ⟨state, rfl⟩
  | done reason =>
    have unfinished := takes.unfinished
    cases unfinished

theorem foldlM_of_takes (open' : client.closes = false) {state : CycleState} {body : List ModelEvent}
    (started : state.Started) (takes : Takes state body) :
    ∃ last, body.foldlM (handle parse client) state = .ok last := by
  induction body generalizing state with
  | nil => exact ⟨state, rfl⟩
  | cons event body ih =>
    obtain ⟨next, ok⟩ := handle_of_takes open' takes
    have rest : Takes next body := by
      refine ⟨?_, observes_start.uncons started takes.starts ok,
        observes_text.uncons started takes.text ok, observes_thinking.uncons started takes.thinking ok,
        fun index => (observes_tool index).uncons started (takes.tools index) ok,
        observes_callIds.uncons started takes.callIds ok,
        observes_usage.uncons started takes.usage ok,
        observes_replayState.uncons started takes.replayState ok⟩
      exact (List.filterMap_eq_nil_iff.mpr fun other member =>
        List.filterMap_eq_nil_iff.mp takes.unfinished other (List.mem_cons_of_mem _ member))
    obtain ⟨last, ran⟩ := ih (keeps_started state event next started ok) rest
    refine ⟨last, ?_⟩
    rw [List.foldlM_cons, ok]
    exact ran

end CycleState

end Byok
