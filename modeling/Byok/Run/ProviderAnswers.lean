/-
**The answer to a provider stream.**

What the loop of a model call makes of the stream that it has read, and the whole function: it accepts
exactly the well-formed streams, its answer holds what they brought, and the client got their content
(`consume_model_cycle_iff`).

* `consume_ok`, `loop_done` — the loop, up to the `Done` and at it.
* `Gathered` — the invariant of what is gathered, with the list that was read.
* `wellFormed_of_ran`, `gathers_of_ran` — the state of the machine at the end, in terms of the stream.
-/

import Byok.Run.ProviderStream

namespace Byok

open Library ModelEvent List

namespace CycleState

variable {parse : String → Except String Value} {client : ClientChannel}

/-! ### The loop -/

theorem handled_finish {state next : CycleState} {event : ModelEvent}
    (handled : Handled parse client state event next) (unfinished : event.doneReason = none) :
    next.finish = state.finish := by
  cases handled with
  | done => cases unfinished
  | _ => rfl

theorem consume_body {state last : CycleState} {body : List ModelEvent} (items : List StreamItem)
    (unfinished : body.filterMap doneReason = []) (running : state.finish = none)
    (ran : body.foldlM (handle parse client) state = .ok last) :
    last.finish = none ∧
      state.consume parse client (body.map .event ++ items) = last.consume parse client items := by
  induction body generalizing state with
  | nil =>
    cases ran
    exact ⟨running, rfl⟩
  | cons event body ih =>
    rw [foldlM_cons] at ran
    obtain ⟨next, ok, ran⟩ := except_bind_eq_ok.mp ran
    have none := filterMap_eq_nil_iff.mp unfinished
    have still := handled_finish (handle_ok ok) (none event mem_cons_self)
    have rest := ih (filterMap_eq_nil_iff.mpr fun other member =>
      none other (mem_cons_of_mem _ member)) (still.trans running) ran
    rw [map_cons, cons_append, consume, running, ok]
    exact rest

theorem consume_done {state : CycleState} (reason : FinishReason) (running : state.finish = none)
    (started : state.modelCallId.isSome) (closed : state.hasOpenBlock = false) :
    state.consume parse client [.event (.done reason)] =
      (state.sent, finished { state with finish := some reason }) := by
  have handled : state.handle parse client (.done reason) = .ok { state with finish := some reason } := by
    simp only [handle, Option.isNone_eq_false_iff.mpr started, closed]
    rfl
  rw [consume, running, handled]
  rfl

theorem consume_ok {state : CycleState} {events : List ModelEvent} {result : CompletedCycle}
    (running : state.finish = none)
    (answered : (state.consume parse client (events.map .event)).2 = .ok result) :
    ∃ body reason last, events = body ++ [.done reason] ∧ body.filterMap doneReason = [] ∧
      body.foldlM (handle parse client) state = .ok last ∧ last.modelCallId.isSome ∧
      last.hasOpenBlock = false := by
  induction events generalizing state with
  | nil =>
    rw [map_nil, consume, finished, running] at answered
    cases answered
  | cons event events ih =>
    rw [map_cons, consume, running] at answered
    cases ok : state.handle parse client event with
    | error refused =>
      rw [ok] at answered
      cases answered
    | ok next =>
      rw [ok] at answered
      change (next.consume parse client (events.map .event)).2 = .ok result at answered
      have handled := handle_ok ok
      cases reason : event.doneReason with
      | none =>
        have still := (handled_finish handled reason).trans running
        obtain ⟨body, reason', last, rfl, unfinished, ran, started, closed⟩ := ih still answered
        refine ⟨event :: body, reason', last, rfl, ?_, ?_, started, closed⟩
        · rw [filterMap_cons_none reason, unfinished]
        · rw [foldlM_cons, ok]
          exact ran
      | some _ =>
        cases handled with
        | done started closed =>
          -- Nothing may follow the `Done`.
          cases events with
          | nil => exact ⟨[], _, state, rfl, rfl, rfl, started, closed⟩
          | cons other events =>
            rw [map_cons, consume] at answered
            cases answered
        | _ => cases reason

theorem finished_ok {state : CycleState} {reason : FinishReason} {result : CompletedCycle} :
    finished { state with finish := some reason } = .ok result ↔
      reason ≠ .length ∧ (reason = .toolUse ↔ state.tools.toList ≠ []) ∧
      ∃ modelCallId, state.modelCallId = some modelCallId ∧
        result = ⟨⟨modelCallId, state.text, state.reasoning, state.replayState,
          state.tools.toList.map fun entry => entry.2.call⟩, state.usage, reason⟩ := by
  simp only [finished]
  by_cases cut : reason = .length
  · simp [cut]
  · rw [if_neg cut]
    by_cases agree : (reason == .toolUse) = !(state.tools.toList.map fun entry => entry.2.call).isEmpty
    · have calls : reason = .toolUse ↔ state.tools.toList ≠ [] := by
        rw [← beq_iff_eq, agree, Bool.not_eq_true', isEmpty_eq_false_iff, ne_eq, map_eq_nil_iff]
      cases state.modelCallId with
      | none => simp [agree]
      | some modelCallId =>
        simp only [agree, bne_self_eq_false, Bool.false_eq_true, if_false, Except.ok.injEq]
        constructor
        · intro equal
          exact ⟨cut, calls, modelCallId, rfl, equal.symm⟩
        · rintro ⟨-, -, other, same, equal⟩
          rw [Option.some.inj same]
          exact equal.symm
    · rw [if_pos (by simpa using agree)]
      constructor
      · intro equal
        cases equal
      · rintro ⟨-, calls, -⟩
        refine absurd ?_ agree
        rw [Bool.eq_iff_iff, beq_iff_eq, calls, Bool.not_eq_true', isEmpty_eq_false_iff, ne_eq, ne_eq,
          map_eq_nil_iff]

/-! ### What is gathered -/

/-- The call of a tool, so far as it has come. -/
def partialCall (parse : String → Except String Value) (read : List ModelEvent) (modelCallId : String)
    (index : Nat) (callId name : String) (ended : Bool) : ToolCall :=
  if ended then completedCall parse read modelCallId index callId name
  else ⟨index, callId, modelCallId, normalizeToolName name,
    String.join (read.filterMap (argumentsPart index)), .null, none⟩

/-- What the machine has gathered of what it has read, when the answer is `modelCallId`. -/
structure Gathered (parse : String → Except String Value) (client : ClientChannel) (modelCallId : String)
    (read : List ModelEvent) (state : CycleState) : Prop where
  text : state.text = String.join (read.filterMap textPart)
  reasoning : state.reasoning = String.join (read.filterMap thinkingPart)
  sent : state.sent = (read.filterMap (forwarded modelCallId)).flatMap client.adds
  unused : ∀ index : Nat, state.tools[index]? = none → read.filterMap (argumentsPart index) = [] ∧
    ∀ callId name, .toolCallStart index callId name ∉ read
  tools : ∀ (index : Nat) (tool : OpenTool), state.tools[index]? = some tool →
    ∃ callId name, (∀ other name', .toolCallStart index other name' ∈ read ↔
        other = callId ∧ name' = name) ∧
      tool.call = partialCall parse read modelCallId index callId name tool.ended

theorem completedCall_append {read : List ModelEvent} {event : ModelEvent} {index : Nat}
    (plain : event.argumentsPart index = none) (modelCallId callId name : String) :
    completedCall parse (read ++ [event]) modelCallId index callId name =
      completedCall parse read modelCallId index callId name := by
  simp only [completedCall, filterMap_append, filterMap_cons_none plain, filterMap_nil,
    append_nil]

theorem partialCall_append {read : List ModelEvent} {event : ModelEvent} {index : Nat}
    (plain : event.argumentsPart index = none) (modelCallId callId name : String) (ended : Bool) :
    partialCall parse (read ++ [event]) modelCallId index callId name ended =
      partialCall parse read modelCallId index callId name ended := by
  simp only [partialCall, completedCall_append plain, filterMap_append,
    filterMap_cons_none plain, filterMap_nil, append_nil]

theorem Gathered.quiet {modelCallId : String} {read : List ModelEvent} {state next : CycleState}
    {event : ModelEvent} (gathered : Gathered parse client modelCallId read state)
    (same : next.tools = state.tools) (plain : ∀ index, event.argumentsPart index = none)
    (other : event.toolCallId = none)
    (text : next.text = state.text ++ event.textPart.getD "")
    (reasoning : next.reasoning = state.reasoning ++ event.thinkingPart.getD "")
    (sent : next.sent = state.sent ++ (event.forwarded modelCallId).toList.flatMap client.adds) :
    Gathered parse client modelCallId (read ++ [event]) next := by
  have starts : ∀ index callId name,
      .toolCallStart index callId name ∈ read ++ [event] ↔ .toolCallStart index callId name ∈ read := by
    intro index callId name
    rw [mem_append, mem_singleton]
    constructor
    · rintro (old | rfl)
      · exact old
      · cases other
    · exact Or.inl
  refine ⟨?_, ?_, ?_, fun index unused => ?_, fun index tool found => ?_⟩
  · rw [text, gathered.text]
    cases here : event.textPart <;> simp [filterMap_append, here]
  · rw [reasoning, gathered.reasoning]
    cases here : event.thinkingPart <;> simp [filterMap_append, here]
  · rw [sent, gathered.sent]
    cases here : event.forwarded modelCallId <;> simp [filterMap_append, here]
  · rw [same] at unused
    obtain ⟨empty, never⟩ := gathered.unused index unused
    refine ⟨?_, fun callId name => by rw [starts]; exact never callId name⟩
    rw [filterMap_append, empty, filterMap_cons_none (plain index)]
    rfl
  · rw [same] at found
    obtain ⟨callId, name, only, call⟩ := gathered.tools index tool found
    refine ⟨callId, name, fun other name' => by rw [starts]; exact only other name', ?_⟩
    rw [call, partialCall_append (plain index)]

theorem Gathered.moves {modelCallId : String} {read : List ModelEvent} {state : CycleState}
    {event : ModelEvent} {index : Nat} {tool later : OpenTool} {announced : RunEvent}
    (gathered : Gathered parse client modelCallId read state)
    (found : state.tools[index]? = some tool) (other : event.toolCallId = none)
    (text : event.textPart = none) (reasoning : event.thinkingPart = none)
    (sent : event.forwarded modelCallId = some announced)
    (plain : ∀ index', index' ≠ index → event.argumentsPart index' = none)
    (call : ∀ callId name, tool.call = partialCall parse read modelCallId index callId name tool.ended →
      later.call = partialCall parse (read ++ [event]) modelCallId index callId name later.ended) :
    Gathered parse client modelCallId (read ++ [event])
      { state with
        tools := state.tools.insert index later
        sent := state.sent ++ client.adds announced } := by
  have starts : ∀ index callId name,
      .toolCallStart index callId name ∈ read ++ [event] ↔ .toolCallStart index callId name ∈ read := by
    intro index callId name
    rw [mem_append, mem_singleton]
    constructor
    · rintro (old | rfl)
      · exact old
      · cases other
    · exact Or.inl
  refine ⟨?_, ?_, ?_, fun index' unused => ?_, fun index' tool' found' => ?_⟩
  · simp [filterMap_append, text, gathered.text]
  · simp [filterMap_append, reasoning, gathered.reasoning]
  · simp [filterMap_append, sent, gathered.sent]
  · rw [found_insert] at unused
    by_cases same : index = index'
    · rw [if_pos same] at unused
      cases unused
    · rw [if_neg same] at unused
      obtain ⟨empty, never⟩ := gathered.unused index' unused
      refine ⟨?_, fun callId name => by rw [starts]; exact never callId name⟩
      rw [filterMap_append, empty, filterMap_cons_none (plain index' fun equal => same equal.symm)]
      rfl
  · rw [found_insert] at found'
    by_cases same : index = index'
    · subst same
      rw [if_pos rfl] at found'
      obtain rfl := Option.some.inj found'
      obtain ⟨callId, name, only, equal⟩ := gathered.tools index tool found
      exact ⟨callId, name, fun other name' => by rw [starts]; exact only other name',
        call callId name equal⟩
    · rw [if_neg same] at found'
      obtain ⟨callId, name, only, equal⟩ := gathered.tools index' tool' found'
      refine ⟨callId, name, fun other name' => by rw [starts]; exact only other name', ?_⟩
      rw [equal, partialCall_append (plain index' fun equal => same equal.symm)]

theorem Gathered.begins {modelCallId : String} {read : List ModelEvent} {state : CycleState}
    {index : Nat} {callId name : String} (gathered : Gathered parse client modelCallId read state)
    (unused : state.tools[index]? = none) :
    Gathered parse client modelCallId (read ++ [.toolCallStart index callId name])
      { state with
        tools := state.tools.insert index (OpenTool.start modelCallId index callId name)
        callIds := callId :: state.callIds
        sent := state.sent ++
          client.adds (.toolCallStart index callId (normalizeToolName name) modelCallId) } := by
  obtain ⟨none, first⟩ := gathered.unused index unused
  refine ⟨?_, ?_, ?_, fun index' unused' => ?_, fun index' tool found => ?_⟩
  · simp [filterMap_append, filterMap_cons, textPart, gathered.text]
  · simp [filterMap_append, filterMap_cons, thinkingPart, gathered.reasoning]
  · simp [filterMap_append, forwarded, gathered.sent]
  · rw [found_insert] at unused'
    by_cases same : index = index'
    · rw [if_pos same] at unused'
      cases unused'
    · rw [if_neg same] at unused'
      obtain ⟨empty, never⟩ := gathered.unused index' unused'
      refine ⟨by simp [filterMap_append, argumentsPart, empty], fun callId name member => ?_⟩
      rcases mem_append.mp member with old | this
      · exact never callId name old
      · rw [mem_singleton] at this
        cases this
        exact same rfl
  · rw [found_insert] at found
    by_cases same : index = index'
    · subst same
      rw [if_pos rfl] at found
      obtain rfl := Option.some.inj found
      refine ⟨callId, name, fun other name' => ?_, ?_⟩
      · rw [mem_append, mem_singleton]
        constructor
        · rintro (old | this)
          · exact absurd old (first other name')
          · cases this
            exact ⟨rfl, rfl⟩
        · rintro ⟨rfl, rfl⟩
          exact .inr rfl
      · simp [partialCall, OpenTool.start, filterMap_append, filterMap_cons, none, argumentsPart]
    · rw [if_neg same] at found
      obtain ⟨callId', name', only, equal⟩ := gathered.tools index' tool found
      refine ⟨callId', name', fun other name'' => ?_, ?_⟩
      · rw [mem_append, mem_singleton, ← only]
        constructor
        · rintro (old | this)
          · exact old
          · cases this
            exact absurd rfl same
        · exact Or.inl
      · rw [equal, partialCall_append rfl]

theorem handled_gathered {modelCallId : String} {read : List ModelEvent} {state next : CycleState}
    {event : ModelEvent} (handled : Handled parse client state event next)
    (gathered : Gathered parse client modelCallId read state)
    (answer : ∀ other, state.modelCallId = some other → other = modelCallId) :
    Gathered parse client modelCallId (read ++ [event]) next := by
  cases handled with
  | toolCallStart started unused =>
    obtain rfl := answer _ started
    exact gathered.begins unused
  | toolCallArgumentsDelta found running =>
    refine gathered.moves found rfl rfl rfl rfl (fun index' other => ?_) fun callId name equal => ?_
    · simp [argumentsPart, Ne.symm other]
    · rw [running] at equal
      simp [OpenTool.extend, running, equal, partialCall, filterMap_append, argumentsPart]
  | toolCallEnd found running =>
    refine gathered.moves found rfl rfl rfl rfl (fun index' _ => rfl) fun callId name equal => ?_
    rw [running] at equal
    simp [OpenTool.close, equal, partialCall, completedCall, filterMap_append, filterMap_cons,
      argumentsPart]
  | _ =>
    exact gathered.quiet rfl (fun _ => rfl) rfl (by simp [textPart]) (by simp [thinkingPart])
      (by simp [forwarded])

theorem handled_modelCallId {state next : CycleState} {event : ModelEvent} {modelCallId : String}
    (handled : Handled parse client state event next) (begun : state.modelCallId = some modelCallId) :
    next.modelCallId = some modelCallId := by
  cases handled with
  | start fresh =>
    rw [fresh] at begun
    cases begun
  | _ => exact begun

theorem foldlM_gathered {body : List ModelEvent} {last : CycleState} {modelCallId : String}
    (ran : body.foldlM (handle parse client) initial = .ok last)
    (answer : last.modelCallId = some modelCallId) :
    Gathered parse client modelCallId body last := by
  have gathered : (∀ other, last.modelCallId = some other → other = modelCallId) →
      Gathered parse client modelCallId body last := by
    refine @foldlM_invariant _ _ _ _ (fun read state =>
      (∀ other, state.modelCallId = some other → other = modelCallId) →
        Gathered parse client modelCallId read state) _ _ _ (fun _ => ?start)
      (fun read state event next holds ok answer => ?keeps) ran
    case start =>
      refine ⟨rfl, rfl, rfl, fun index _ => ⟨rfl, fun _ _ member => ?_⟩, fun index tool found => ?_⟩
      · cases member
      · rw [initial, Std.TreeMap.getElem?_emptyc] at found
        cases found
    case keeps =>
      have handled := handle_ok ok
      have before : ∀ other, state.modelCallId = some other → other = modelCallId :=
        fun other begun => answer other (handled_modelCallId handled begun)
      exact handled_gathered handled (holds before) before
  refine gathered fun other same => ?_
  rw [answer] at same
  exact (Option.some.inj same).symm

/-! ### Accepted streams -/

theorem hasOpenBlock_eq_false {state : CycleState} :
    state.hasOpenBlock = false ↔ state.textOpen = false ∧ state.thinkingOpen = false ∧
      ∀ index, state.toolPhase index ≠ .running := by
  unfold hasOpenBlock
  rw [Bool.or_eq_false_iff, Bool.or_eq_false_iff, and_assoc, any_eq_false]
  refine and_congr_right fun _ => and_congr_right fun _ => ⟨fun ended index running => ?_,
    fun ended entry member open' => ?_⟩
  · obtain ⟨tool, found, running⟩ := toolPhase_running.mp running
    have closed := ended (index, tool) (Std.TreeMap.mem_toList_iff_getElem?_eq_some.mpr found)
    simp [running] at closed
  · refine ended entry.1 (toolPhase_running.mpr ⟨entry.2, ?_, by simpa using open'⟩)
    exact Std.TreeMap.mem_toList_iff_getElem?_eq_some.mp member

/-- The parts of the machine at the end of a stream that it has read. -/
structure Views (body : List ModelEvent) (last : CycleState) : Prop where
  starts : (body.filterMap startMark).foldlM Phase.advance .fresh = some last.startPhase
  startId : (body.filterMap startId).foldlM seen none = some last.modelCallId
  text : (body.filterMap textMark).foldlM toggle false = some last.textOpen
  thinking : (body.filterMap thinkingMark).foldlM toggle false = some last.thinkingOpen
  tools : ∀ index, (body.filterMap (toolMark index)).foldlM Phase.advance .fresh =
    some (last.toolPhase index)
  callIds : (body.filterMap toolCallId).foldlM addFresh [] = some last.callIds
  usage : (body.filterMap usage?).foldlM seen none = some last.usage
  replayState : (body.filterMap replayState?).foldlM seen none = some last.replayState

theorem initial_toolPhase (index : Nat) : initial.toolPhase index = .fresh :=
  toolPhase_fresh.mpr Std.TreeMap.getElem?_emptyc

theorem views_of_ran {body : List ModelEvent} {last : CycleState}
    (ran : body.foldlM (handle parse client) initial = .ok last) : Views body last where
  starts := observes_foldlM keeps_started observes_start initial_started ran
  startId := observes_foldlM keeps_started observes_startId initial_started ran
  text := observes_foldlM keeps_started observes_text initial_started ran
  thinking := observes_foldlM keeps_started observes_thinking initial_started ran
  tools index := by
    rw [← initial_toolPhase index]
    exact observes_foldlM keeps_started (observes_tool index) initial_started ran
  callIds := observes_foldlM keeps_started observes_callIds initial_started ran
  usage := observes_foldlM keeps_started observes_usage initial_started ran
  replayState := observes_foldlM keeps_started observes_replayState initial_started ran

theorem takes_of_wellFormed {body : List ModelEvent} {reason : FinishReason}
    (wellFormed : WellFormedStream body reason) : Takes initial body where
  unfinished := wellFormed.unfinished
  starts := by
    show ((body.filterMap startMark).foldlM Phase.advance .fresh).isSome
    rw [phase_running_iff.mpr wellFormed.starts]
    rfl
  text := by
    show ((body.filterMap textMark).foldlM toggle false).isSome
    rw [toggle_iff.mpr wellFormed.text]
    rfl
  thinking := by
    show ((body.filterMap thinkingMark).foldlM toggle false).isSome
    rw [toggle_iff.mpr wellFormed.thinking]
    rfl
  tools index := by
    rw [initial_toolPhase]
    rcases wellFormed.tools index with empty | block
    · rw [empty]
      rfl
    · rw [phase_ended_iff.mpr block]
      rfl
  callIds := by
    refine addFresh_nodup.mpr ⟨wellFormed.callIds, fun value _ held => ?_⟩
    cases held
  usage := seen_of_length wellFormed.usage
  replayState := seen_of_length wellFormed.replayState

theorem Gathered.toolCallIds {modelCallId : String} {body : List ModelEvent} {last : CycleState}
    (gathered : Gathered parse client modelCallId body last) :
    last.tools.toList ≠ [] ↔ body.filterMap toolCallId ≠ [] := by
  constructor
  · intro some none
    obtain ⟨entry, member⟩ := exists_mem_of_ne_nil _ some
    obtain ⟨callId, name, only, -⟩ :=
      gathered.tools entry.1 entry.2 (Std.TreeMap.mem_toList_iff_getElem?_eq_some.mp member)
    have begun := (only callId name).mpr ⟨rfl, rfl⟩
    cases filterMap_eq_nil_iff.mp none _ begun
  · intro some none
    refine some (filterMap_eq_nil_iff.mpr fun event member => ?_)
    cases event with
    | toolCallStart index callId name =>
      cases found : last.tools[index]? with
      | none => exact absurd member ((gathered.unused index found).2 callId name)
      | some tool =>
        have held := Std.TreeMap.mem_toList_iff_getElem?_eq_some.mpr found
        rw [none] at held
        cases held
    | _ => rfl

theorem wellFormed_of_ran {body : List ModelEvent} {reason : FinishReason} {last : CycleState}
    (unfinished : body.filterMap doneReason = [])
    (ran : body.foldlM (handle parse client) initial = .ok last) {modelCallId : String}
    (answer : last.modelCallId = some modelCallId) (closed : last.hasOpenBlock = false)
    (complete : reason ≠ .length) (calls : reason = .toolUse ↔ last.tools.toList ≠ []) :
    WellFormedStream body reason := by
  have views := views_of_ran ran
  obtain ⟨text, thinking, tools⟩ := hasOpenBlock_eq_false.mp closed
  refine ⟨unfinished, phase_running_iff.mp ?_, toggle_iff.mp ?_, toggle_iff.mp ?_, fun index => ?_,
    ?_, ?_, ?_, complete, ?_⟩
  · rw [views.starts, startPhase_running.mpr (by rw [answer, Option.isSome_some])]
  · rw [views.text, text]
  · rw [views.thinking, thinking]
  · have phase := views.tools index
    cases here : last.toolPhase index with
    | fresh =>
      rw [here] at phase
      exact .inl (phase_fresh_iff.mp phase)
    | running => exact absurd here (tools index)
    | ended =>
      rw [here] at phase
      exact .inr (phase_ended_iff.mp phase)
  · have taken : ((body.filterMap toolCallId).foldlM addFresh []).isSome := by
      rw [views.callIds]
      rfl
    exact (addFresh_nodup.mp taken).1
  · rw [seen_iff.mp views.usage]
    cases last.usage <;> simp
  · rw [seen_iff.mp views.replayState]
    cases last.replayState <;> simp
  · exact calls.trans (foldlM_gathered ran answer).toolCallIds

theorem closedArguments_object (name text : String) :
    ∃ fields, (closedArguments parse name text).1 = .object fields := by
  unfold closedArguments
  by_cases blank : trim text = ""
  · exact ⟨[], by rw [if_pos blank]⟩
  · rw [if_neg blank]
    split
    case h_1 fields _ => exact ⟨fields, rfl⟩
    case h_2 => exact ⟨[], rfl⟩
    case h_3 => exact ⟨[], rfl⟩

theorem closedArguments_error (name text : String) :
    (closedArguments parse name text).2.isSome ↔
      trim text ≠ "" ∧ ¬ ∃ fields, parse text = .ok (.object fields) := by
  unfold closedArguments
  by_cases blank : trim text = ""
  · rw [if_pos blank]
    simp [blank]
  · rw [if_neg blank]
    split
    case h_1 fields object => simp [object]
    case h_2 value other ok =>
      simp only [Option.isSome_some, true_iff]
      refine ⟨blank, ?_⟩
      rintro ⟨fields, object⟩
      rw [ok] at object
      exact other fields (Except.ok.inj object)
    case h_3 error failed => simp [failed, blank]

theorem gathers_of_ran {body : List ModelEvent} {reason : FinishReason} {last : CycleState}
    {modelCallId : String} (ran : body.foldlM (handle parse client) initial = .ok last)
    (answer : last.modelCallId = some modelCallId) (closed : last.hasOpenBlock = false) :
    Gathers parse body reason ⟨⟨modelCallId, last.text, last.reasoning, last.replayState,
      last.tools.toList.map fun entry => entry.2.call⟩, last.usage, reason⟩ := by
  have views := views_of_ran ran
  have gathered := foldlM_gathered ran answer
  have ended : ∀ (index : Nat) (tool : OpenTool), last.tools[index]? = some tool →
      ∃ callId name, .toolCallStart index callId name ∈ body ∧
        tool.call = completedCall parse body modelCallId index callId name := by
    intro index tool found
    obtain ⟨callId, name, only, call⟩ := gathered.tools index tool found
    refine ⟨callId, name, (only callId name).mpr ⟨rfl, rfl⟩, ?_⟩
    cases ended : tool.ended with
    | true => rw [call, partialCall, if_pos ended]
    | false =>
      exact absurd (toolPhase_running.mpr ⟨tool, found, ended⟩)
        ((hasOpenBlock_eq_false.mp closed).2.2 index)
  have indexed : ∀ entry ∈ last.tools.toList, entry.2.call.index = entry.1 := by
    intro entry member
    obtain ⟨callId, name, -, call⟩ :=
      ended entry.1 entry.2 (Std.TreeMap.mem_toList_iff_getElem?_eq_some.mp member)
    rw [call]
    rfl
  have completed : ∀ call ∈ last.tools.toList.map fun entry => entry.2.call,
      ∃ index callId name, .toolCallStart index callId name ∈ body ∧
        call = completedCall parse body modelCallId index callId name := by
    intro call member
    obtain ⟨entry, held, rfl⟩ := mem_map.mp member
    exact ⟨entry.1, ended entry.1 entry.2 (Std.TreeMap.mem_toList_iff_getElem?_eq_some.mp held)⟩
  refine ⟨?start, gathered.text, gathered.reasoning, seen_iff.mp views.replayState,
    seen_iff.mp views.usage, rfl, ?sorted, fun call => ⟨completed call, ?all⟩, ?objects, ?errors⟩
  case start =>
    have only := seen_iff.mp views.startId
    rw [answer] at only
    have held : modelCallId ∈ body.filterMap startId := by
      rw [only]
      exact mem_singleton_self modelCallId
    obtain ⟨event, member, started⟩ := mem_filterMap.mp held
    cases event with
    | start id =>
      obtain rfl := Option.some.inj started
      exact member
    | _ => cases started
  case sorted =>
    show (last.tools.toList.map fun entry => entry.2.call).Pairwise _
    rw [pairwise_map]
    refine Std.TreeMap.ordered_keys_toList.imp_of_mem fun first second less => ?_
    rw [indexed _ first, indexed _ second]
    exact Nat.compare_eq_lt.mp less
  case all =>
    rintro ⟨index, callId, name, begun, rfl⟩
    cases found : last.tools[index]? with
    | none => exact absurd begun ((gathered.unused index found).2 callId name)
    | some tool =>
      obtain ⟨callId', name', only, call⟩ := gathered.tools index tool found
      obtain ⟨rfl, rfl⟩ := (only callId name).mp begun
      obtain ⟨callId', name', begun', call'⟩ := ended index tool found
      obtain ⟨rfl, rfl⟩ := (only callId' name').mp begun'
      refine mem_map.mpr ⟨(index, tool), ?_, call'⟩
      exact Std.TreeMap.mem_toList_iff_getElem?_eq_some.mpr found
  case objects =>
    intro call member
    obtain ⟨index, callId, name, -, rfl⟩ := completed call member
    exact closedArguments_object _ _
  case errors =>
    intro call member
    obtain ⟨index, callId, name, -, rfl⟩ := completed call member
    exact closedArguments_error _ _

theorem closed_of_wellFormed {body : List ModelEvent} {reason : FinishReason} {last : CycleState}
    (wellFormed : WellFormedStream body reason)
    (ran : body.foldlM (handle parse client) initial = .ok last) :
    ∃ modelCallId, last.modelCallId = some modelCallId ∧ last.hasOpenBlock = false := by
  have views := views_of_ran ran
  have starts := views.starts
  rw [phase_running_iff.mpr wellFormed.starts] at starts
  obtain ⟨modelCallId, answer⟩ :=
    Option.isSome_iff_exists.mp (startPhase_running.mp (Option.some.inj starts).symm)
  have text := views.text
  rw [toggle_iff.mpr wellFormed.text] at text
  have thinking := views.thinking
  rw [toggle_iff.mpr wellFormed.thinking] at thinking
  refine ⟨modelCallId, answer, hasOpenBlock_eq_false.mpr ⟨(Option.some.inj text).symm,
    (Option.some.inj thinking).symm, fun index running => ?_⟩⟩
  have phase := views.tools index
  rw [running] at phase
  rcases wellFormed.tools index with empty | block
  · rw [phase_fresh_iff.mpr empty] at phase
    cases phase
  · rw [phase_ended_iff.mpr block] at phase
    cases phase

theorem loop_done {body : List ModelEvent} {reason : FinishReason} {last : CycleState}
    (unfinished : body.filterMap doneReason = [])
    (ran : body.foldlM (handle parse client) initial = .ok last) (started : last.modelCallId.isSome)
    (closed : last.hasOpenBlock = false) :
    consumeModelCycle parse client ((body ++ [ModelEvent.done reason]).map .event) =
      (last.sent, finished { last with finish := some reason }) := by
  obtain ⟨running, through⟩ := consume_body [.event (.done reason)] unfinished rfl ran
  rw [consumeModelCycle, map_append, map_singleton, through,
    consume_done reason running started closed]

end CycleState

/-- **A model call accepts exactly the well-formed provider streams.** The answer holds what the stream
brought, and the client got its content in order. -/
theorem consume_model_cycle_iff (parse : String → Except String Value) (client : ClientChannel)
    (stays : client.closes = false) (events : List ModelEvent) :
    ((∃ result, (consumeModelCycle parse client (events.map .event)).2 = .ok result) ↔
      ∃ body reason, events = body ++ [.done reason] ∧ WellFormedStream body reason) ∧
    ∀ result, (consumeModelCycle parse client (events.map .event)).2 = .ok result →
      ∃ body reason, events = body ++ [.done reason] ∧ Gathers parse body reason result ∧
        (consumeModelCycle parse client (events.map .event)).1 =
          (body.filterMap (forwarded result.modelCallId)).flatMap client.adds := by
  have read : ∀ result, (consumeModelCycle parse client (events.map .event)).2 = .ok result →
      ∃ body reason, events = body ++ [.done reason] ∧ WellFormedStream body reason ∧
        Gathers parse body reason result ∧
        (consumeModelCycle parse client (events.map .event)).1 =
          (body.filterMap (forwarded result.modelCallId)).flatMap client.adds := by
    intro result answered
    obtain ⟨body, reason, last, rfl, unfinished, ran, started, closed⟩ :=
      CycleState.consume_ok rfl answered
    rw [CycleState.loop_done unfinished ran started closed] at answered ⊢
    obtain ⟨complete, calls, modelCallId, answer, rfl⟩ := CycleState.finished_ok.mp answered
    exact ⟨body, reason, rfl,
      CycleState.wellFormed_of_ran unfinished ran answer closed complete calls,
      CycleState.gathers_of_ran ran answer closed, (CycleState.foldlM_gathered ran answer).sent⟩
  refine ⟨⟨?accepted, ?accepts⟩, fun result answered => ?_⟩
  case accepted =>
    rintro ⟨result, answered⟩
    obtain ⟨body, reason, equal, wellFormed, -⟩ := read result answered
    exact ⟨body, reason, equal, wellFormed⟩
  case accepts =>
    rintro ⟨body, reason, rfl, wellFormed⟩
    obtain ⟨last, ran⟩ : ∃ last, body.foldlM (CycleState.handle parse client) .initial = .ok last :=
      CycleState.foldlM_of_takes stays CycleState.initial_started
        (CycleState.takes_of_wellFormed wellFormed)
    obtain ⟨modelCallId, answer, closed⟩ := CycleState.closed_of_wellFormed wellFormed ran
    have calls := wellFormed.calls.trans (CycleState.foldlM_gathered ran answer).toolCallIds.symm
    rw [CycleState.loop_done wellFormed.unfinished ran (by rw [answer, Option.isSome_some]) closed]
    exact ⟨_, CycleState.finished_ok.mpr ⟨wellFormed.complete, calls, modelCallId, answer, rfl⟩⟩
  obtain ⟨body, reason, equal, -, gathers, sent⟩ := read result answered
  exact ⟨body, reason, equal, gathers, sent⟩

/-- A stream with one call. -/
def oneCallStream : List ModelEvent :=
  [.start "model-call", .toolCallStart 0 "call" "read", .toolCallArgumentsDelta 0 "{}", .toolCallEnd 0,
    .done .toolUse]

theorem consume_model_cycle_iff_sample :
    ∃ body reason, oneCallStream = body ++ [.done reason] ∧ WellFormedStream body reason :=
  (consume_model_cycle_iff (fun _ => .ok (.object [])) .live rfl oneCallStream).1.mp
    ⟨⟨⟨"model-call", "", "", none, [⟨0, "call", "model-call", "read", "{}", .object [], none⟩]⟩, none,
      .toolUse⟩, by decide +kernel⟩

end Byok
