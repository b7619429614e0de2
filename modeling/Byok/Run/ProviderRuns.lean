/-
**Reading the events of an adapter.**

What the loop of a model call does with the events that an adapter writes, one lemma for each thing an
adapter does. Nothing here depends on the client, as long as it stays: `Reads` is about a call without one.

* `reads_say`, `reads_think` — a piece of text, and of reasoning, with the block that it needs.
* `reads_startTool`, `reads_arguments`, `reads_endTools` — tool calls.
* `consume_of_reads` — the answer to a stream that was read to its `Done`.
-/

import Byok.Run.ProviderAnswers

namespace Byok

open Library ModelEvent List

namespace CycleState

variable {parse : String → Except String Value} {client : ClientChannel}
  {state between next last : CycleState}

/-! ### Runs without a client -/

/-- A call without a client reads `events`, which hold no `Done`. -/
structure Reads (parse : String → Except String Value) (state : CycleState) (events : List ModelEvent)
    (last : CycleState) : Prop where
  ran : events.foldlM (handle parse .absent) state = .ok last
  unfinished : events.filterMap doneReason = []

theorem Reads.none : Reads parse state [] state := ⟨rfl, rfl⟩

theorem Reads.one {event : ModelEvent} (plain : event.doneReason = .none)
    (ok : state.handle parse .absent event = .ok next) : Reads parse state [event] next where
  ran := by
    rw [foldlM_cons, ok]
    rfl
  unfinished := by rw [filterMap_cons_none plain, filterMap_nil]

theorem Reads.append {events more : List ModelEvent} (first : Reads parse state events between)
    (second : Reads parse between more last) : Reads parse state (events ++ more) last where
  ran := by
    rw [foldlM_append, first.ran]
    exact second.ran
  unfinished := by rw [filterMap_append, first.unfinished, second.unfinished, append_nil]

theorem forward_stays (stays : client.closes = false) (state : CycleState) (event : RunEvent) :
    ∃ sent, forward client state event = .ok { state with sent := sent } := by
  cases client with
  | absent => exact ⟨state.sent, rfl⟩
  | live => exact ⟨state.sent ++ [event], rfl⟩
  | closing => cases stays

theorem handle_stays (stays : client.closes = false) {event : ModelEvent}
    (ok : state.handle parse .absent event = .ok next) (sent : List RunEvent) :
    ∃ later, handle parse client { state with sent := sent } event = .ok { next with sent := later } := by
  cases handle_ok ok with
  | start fresh => exact ⟨sent, by simp [handle, fresh]⟩
  | textStart started closed =>
    simp only [handle, Option.isNone_eq_false_iff.mpr started, closed]
    exact forward_stays stays _ _
  | textDelta running =>
    simp only [handle, running]
    exact forward_stays stays _ _
  | textEnd running =>
    simp only [handle, running]
    exact forward_stays stays _ _
  | thinkingStart started closed =>
    simp only [handle, Option.isNone_eq_false_iff.mpr started, closed]
    exact forward_stays stays _ _
  | thinkingDelta running =>
    simp only [handle, running]
    exact forward_stays stays _ _
  | thinkingEnd running =>
    simp only [handle, running]
    exact forward_stays stays _ _
  | thinkingSignature => exact ⟨sent, rfl⟩
  | stopSequence => exact ⟨sent, rfl⟩
  | @toolCallStart index callId _ _ started unused fresh =>
    have free : state.tools.contains index = false := by
      rw [Std.TreeMap.contains_eq_isSome_getElem?, unused]
      rfl
    have new : state.callIds.contains callId = false := by
      rw [← Bool.not_eq_true, contains_iff_mem]
      exact fresh
    simp only [handle, startTool, started, free, new]
    exact forward_stays stays _ _
  | toolCallArgumentsDelta found running =>
    simp only [handle, extendTool, found, running]
    exact forward_stays stays _ _
  | toolCallEnd found running =>
    simp only [handle, endTool, found, running]
    exact forward_stays stays _ _
  | providerReplayState first => exact ⟨sent, by simp [handle, first]⟩
  | usage first =>
    cases client with
    | absent => exact ⟨sent, by simp [handle, first, send]⟩
    | live => exact ⟨_, by simp [handle, first, send]; rfl⟩
    | closing => cases stays
  | done started closed =>
    refine ⟨sent, ?_⟩
    have closed : hasOpenBlock { state with sent := sent } = false := closed
    simp only [handle, Option.isNone_eq_false_iff.mpr started, closed]
    rfl

theorem foldlM_stays (stays : client.closes = false) {events : List ModelEvent}
    (ran : events.foldlM (handle parse .absent) state = .ok last) (sent : List RunEvent) :
    ∃ later, events.foldlM (handle parse client) { state with sent := sent } =
      .ok { last with sent := later } := by
  induction events generalizing state sent with
  | nil =>
    cases ran
    exact ⟨sent, rfl⟩
  | cons event events ih =>
    rw [foldlM_cons] at ran
    obtain ⟨next, ok, ran⟩ := except_bind_eq_ok.mp ran
    obtain ⟨between, first⟩ := handle_stays stays ok sent
    obtain ⟨later, rest⟩ := ih ran between
    refine ⟨later, ?_⟩
    rw [foldlM_cons, first]
    exact rest

/-- **The answer to a stream that was read to its `Done`.** -/
theorem consume_of_reads (stays : client.closes = false) {body : List ModelEvent} {reason : FinishReason}
    {modelCallId : String} {result : CompletedCycle} (read : Reads parse initial body last)
    (answer : last.modelCallId = some modelCallId) (closed : last.hasOpenBlock = false) :
    (consumeModelCycle parse client ((body ++ [ModelEvent.done reason]).map .event)).2 = .ok result ↔
      reason ≠ .length ∧ (reason = .toolUse ↔ last.tools.toList ≠ []) ∧
      result = ⟨⟨modelCallId, last.text, last.reasoning, last.replayState,
        last.tools.toList.map fun entry => entry.2.call⟩, last.usage, reason⟩ := by
  obtain ⟨sent, ran⟩ := foldlM_stays stays read.ran []
  rw [loop_done read.unfinished ran (by rw [answer]; rfl) closed]
  refine finished_ok.trans (and_congr_right fun _ => and_congr_right fun _ => ?_)
  constructor
  · rintro ⟨other, same, equal⟩
    rw [answer] at same
    rw [equal, ← Option.some.inj same]
  · intro equal
    exact ⟨modelCallId, answer, equal⟩

/-! ### What an adapter does -/

theorem reads_start (id : String) (fresh : state.modelCallId = none) :
    Reads parse state [.start id] { state with modelCallId := some id } :=
  .one rfl (by simp [handle, fresh])

theorem reads_openText (started : state.modelCallId.isSome) :
    Reads parse state (if state.textOpen then [] else [.textStart]) { state with textOpen := true } := by
  cases closed : state.textOpen with
  | true =>
    rw [if_pos rfl, ← closed]
    exact .none
  | false =>
    refine .one rfl ?_
    simp only [handle, Option.isNone_eq_false_iff.mpr started, closed]
    rfl

theorem reads_closeText :
    Reads parse state (if state.textOpen then [.textEnd] else []) { state with textOpen := false } := by
  cases running : state.textOpen with
  | true =>
    refine .one rfl ?_
    simp only [handle, running]
    rfl
  | false =>
    rw [if_neg Bool.false_ne_true, ← running]
    exact .none

theorem reads_openThinking (started : state.modelCallId.isSome) :
    Reads parse state (if state.thinkingOpen then [] else [.thinkingStart])
      { state with thinkingOpen := true } := by
  cases closed : state.thinkingOpen with
  | true =>
    rw [if_pos rfl, ← closed]
    exact .none
  | false =>
    refine .one rfl ?_
    simp only [handle, Option.isNone_eq_false_iff.mpr started, closed]
    rfl

theorem reads_closeThinking :
    Reads parse state (if state.thinkingOpen then [.thinkingEnd] else [])
      { state with thinkingOpen := false } := by
  cases running : state.thinkingOpen with
  | true =>
    refine .one rfl ?_
    simp only [handle, running]
    rfl
  | false =>
    rw [if_neg Bool.false_ne_true, ← running]
    exact .none

theorem reads_closeBlocks {thinking text : Bool} (thinkingOpen : state.thinkingOpen = thinking)
    (textOpen : state.textOpen = text) :
    Reads parse state ((if thinking then [.thinkingEnd] else []) ++ (if text then [.textEnd] else []))
      { state with thinkingOpen := false, textOpen := false } := by
  subst thinkingOpen textOpen
  have closed : Reads parse { state with thinkingOpen := false } _ _ := reads_closeText
  exact reads_closeThinking.append closed

theorem reads_say (delta : String) (running : state.textOpen) :
    Reads parse state [.textDelta delta] { state with text := state.text ++ delta } :=
  .one rfl (by simp only [handle, running]; rfl)

theorem reads_think (delta : String) (running : state.thinkingOpen) :
    Reads parse state [.thinkingDelta delta] { state with reasoning := state.reasoning ++ delta } :=
  .one rfl (by simp only [handle, running]; rfl)

theorem reads_startTool {modelCallId : String} (index : Nat) (callId name : String)
    (started : state.modelCallId = some modelCallId) (unused : state.tools[index]? = none)
    (fresh : callId ∉ state.callIds) :
    Reads parse state [.toolCallStart index callId name]
      { state with
        tools := state.tools.insert index (OpenTool.start modelCallId index callId name)
        callIds := callId :: state.callIds } := by
  refine .one rfl ?_
  have free : state.tools.contains index = false := by
    rw [Std.TreeMap.contains_eq_isSome_getElem?, unused]
    rfl
  have new : state.callIds.contains callId = false := by
    rw [← Bool.not_eq_true, contains_iff_mem]
    exact fresh
  simp only [handle, startTool, started, free, new]
  rfl

theorem reads_arguments {index : Nat} {tool : OpenTool} (delta : String)
    (found : state.tools[index]? = some tool) (running : tool.ended = false) :
    Reads parse state [.toolCallArgumentsDelta index delta]
      { state with tools := state.tools.insert index (tool.extend delta) } := by
  refine .one rfl ?_
  simp only [handle, extendTool, found, running]
  rfl

theorem reads_endTool {index : Nat} {tool : OpenTool} (found : state.tools[index]? = some tool)
    (running : tool.ended = false) :
    Reads parse state [.toolCallEnd index]
      { state with tools := state.tools.insert index (tool.close parse) } := by
  refine .one rfl ?_
  simp only [handle, endTool, found, running]
  rfl

theorem reads_usage (usage : Usage) (first : state.usage = none) :
    Reads parse state [.usage usage] { state with usage := some usage } :=
  .one rfl (by simp [handle, first, send])

theorem reads_replay (replay : ProviderReplayState) (first : state.replayState = none) :
    Reads parse state [.providerReplayState replay] { state with replayState := some replay } :=
  .one rfl (by simp [handle, first])

theorem reads_usages (usage : Option Usage) (first : state.usage = none) :
    Reads parse state (usage.toList.map .usage) { state with usage := usage } := by
  cases usage with
  | none =>
    have same : { state with usage := none } = state := by rw [← first]
    rw [same]
    exact .none
  | some usage => exact reads_usage usage first

theorem reads_replays (replay : Option ProviderReplayState) (first : state.replayState = none) :
    Reads parse state (replay.toList.map .providerReplayState) { state with replayState := replay } := by
  cases replay with
  | none =>
    have same : { state with replayState := none } = state := by rw [← first]
    rw [same]
    exact .none
  | some replay => exact reads_replay replay first

theorem reads_signature (signature : String) : Reads parse state [.thinkingSignature signature] state :=
  .one rfl rfl

theorem reads_stopSequence (sequence : String) : Reads parse state [.stopSequence sequence] state :=
  .one rfl rfl

/-- A tool that is not ended, with the text of its arguments so far. -/
def holding (modelCallId : String) (index : Nat) (callId name text : String) : OpenTool :=
  { OpenTool.start modelCallId index callId name with
    call := { (OpenTool.start modelCallId index callId name).call with argumentsText := text } }

/-- The delta from a text of arguments to a longer one. -/
def remainder (index : Nat) (old new : String) : List ModelEvent :=
  if old.length < new.length then
    [.toolCallArgumentsDelta index (String.ofList (new.toList.drop old.length))]
  else []

theorem reads_extend {modelCallId callId name old new : String} {index : Nat}
    (found : state.tools[index]? = some (holding modelCallId index callId name old))
    (grown : old.toList <+: new.toList) :
    ∃ tools, Reads parse state (remainder index old new) { state with tools := tools } ∧
      ∀ other : Nat, tools[other]? =
        if index = other then some (holding modelCallId index callId name new) else state.tools[other]? := by
  have longer : old ++ String.ofList (new.toList.drop old.length) = new := by
    obtain ⟨rest, equal⟩ := grown
    apply String.toList_inj.mp
    rw [String.toList_append, String.toList_ofList, ← equal, ← String.length_toList, drop_left]
  unfold remainder
  by_cases more : old.length < new.length
  · rw [if_pos more]
    refine ⟨_, reads_arguments _ found rfl, fun other => ?_⟩
    rw [found_insert]
    simp only [OpenTool.extend, holding, longer]
  · have same : old = new := by
      refine String.toList_inj.mp (grown.eq_of_length_le ?_)
      rw [String.length_toList, String.length_toList]
      exact Nat.le_of_not_lt more
    subst same
    rw [if_neg more]
    refine ⟨state.tools, .none, fun other => ?_⟩
    by_cases here : index = other
    · subst here
      rw [if_pos rfl, found]
    · rw [if_neg here]

theorem reads_endTools {indexes : List Nat} (distinct : indexes.Nodup)
    (running : ∀ index ∈ indexes, ∃ tool, state.tools[index]? = some tool ∧ tool.ended = false) :
    ∃ tools, Reads parse state (indexes.map .toolCallEnd) { state with tools := tools } ∧
      ∀ index : Nat, tools[index]? =
        if index ∈ indexes then state.tools[index]?.map (·.close parse) else state.tools[index]? := by
  induction indexes generalizing state with
  | nil => exact ⟨state.tools, .none, fun index => by simp⟩
  | cons index indexes ih =>
    rw [nodup_cons] at distinct
    obtain ⟨tool, found, open'⟩ := running index mem_cons_self
    have apart : ∀ other ∈ indexes, index ≠ other := fun other member same => distinct.1 (same ▸ member)
    obtain ⟨tools, rest, known⟩ := @ih { state with tools := state.tools.insert index (tool.close parse) }
      distinct.2 fun other member => by
        rw [found_insert, if_neg (apart other member)]
        exact running other (mem_cons_of_mem _ member)
    refine ⟨tools, (reads_endTool found open').append rest, fun other => ?_⟩
    rw [known other, found_insert]
    by_cases same : index = other
    · subst same
      simp [distinct.1, found]
    · simp [same, Ne.symm same]

end CycleState

end Byok
