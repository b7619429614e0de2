/-
**The stream of an answer of the gateway.**

* `heard` — the events up to a stop sequence.
* `Answers` — the blocks that were sent hold the calls that were heard.
* `respond_framed` — blocks with indexes of their own, each call once, and the end of the message.
-/

import Byok.Gateway.Calls
import Byok.Run.ProviderAnswers
import Mathlib.Data.List.TakeWhile

namespace Byok.Gateway

open Library ModelEvent CycleState ResponseTranslator List

variable {parse : String → Except String Value} {client : ClientChannel} {strict : Bool}
variable {machine next : CycleState} {translator : ResponseTranslator} {event : ModelEvent} {frame : Frame}
variable {read : List ModelEvent} {done waiting : List (Nat × String × String)}

/-! ### What is heard -/

/-- The events that are read before a stop sequence has been hit. -/
def heard (translator : ResponseTranslator) : List ModelEvent → List ModelEvent
  | [] => []
  | event :: events =>
    if translator.stoppedBy.isSome then [] else event :: heard (translator.push event).1 events

/-- Some block overtakes a tool that waits. -/
def Overtaken (translator : ResponseTranslator) : List ModelEvent → Prop
  | [] => False
  | event :: events => Overtakes translator event ∨ Overtaken (translator.push event).1 events

instance decidableOpens (translator : ResponseTranslator) : (event : ModelEvent) → Decidable (Opens translator event)
  | .textStart | .thinkingStart => inferInstanceAs (Decidable (translator.stoppedBy = none))
  | .textDelta _ | .thinkingDelta _ =>
    inferInstanceAs (Decidable (translator.stoppedBy = none ∧ translator.opened.any _ = false))
  | .providerReplayState state => inferInstanceAs (Decidable (∃ block ∈ replayBlocks state, _ = some "redacted_thinking"))
  | .start _ | .textEnd | .thinkingEnd | .thinkingSignature _ | .toolCallStart _ _ _ | .toolCallArgumentsDelta _ _
  | .toolCallEnd _ | .stopSequence _ | .usage _ | .done _ => inferInstanceAs (Decidable False)

instance decidableOvertaken (translator : ResponseTranslator) :
    (events : List ModelEvent) → Decidable (Overtaken translator events)
  | [] => inferInstanceAs (Decidable False)
  | event :: events =>
    have := decidableOvertaken (translator.push event).1 events
    inferInstanceAs (Decidable (translator.tools ≠ [] ∧ Opens translator event ∨ Overtaken (translator.push event).1 events))

theorem callOf_ended (tracks : Tracks machine translator.tools read done waiting) (started : machine.Started)
    (ok : machine.handle parse client event = .ok next) :
    done.map (callOf (read ++ [event])) = done.map (callOf read) := by
  refine map_congr_left fun start member => callOf_append ?_
  have moved := phases started ok start.1
  rw [tracks.ended start member] at moved
  cases event with
  | toolCallArgumentsDelta index delta =>
    rw [argumentsPart]
    by_cases same : index = start.1
    · rw [toolMark, if_pos same] at moved
      cases moved
    · rw [if_neg same]
  | _ => rfl

/-- The blocks, and the tools that wait, hold the calls that were read. -/
structure Answers (translator : ResponseTranslator) (frame : Frame) (read : List ModelEvent) : Prop where
  framed : Framed translator frame
  going : translator.finished = false
  calls : frame.called ++ translator.tools.map (fun entry => PendingTool.call entry.2) = toolCalls read

/-- What a push sends, and where it leads. -/
def Pushes (strict : Bool) (frame : Frame) (sent : Sent) (read : List ModelEvent) : Prop :=
  ∃ labels after, (frames strict).Run frame labels after ∧ labels.filterMap id = sent.2 ∧ Answers sent.1 after read

theorem tools_calls (tracks : Tracks machine translator.tools read done waiting) :
    translator.tools.map (fun entry => PendingTool.call entry.2) = waiting.map (callOf read) := by
  have mapped := congrArg (List.map PendingTool.call) tracks.tools
  rw [map_map, map_map] at mapped
  exact mapped

theorem toolCalls_eq (tracks : Tracks machine translator.tools read done waiting) :
    toolCalls read = done.map (callOf read) ++ translator.tools.map (fun entry => PendingTool.call entry.2) := by
  rw [toolCalls, tracks.starts, map_append, tools_calls tracks]

theorem pushEvent_finished (event : ModelEvent) : (translator.pushEvent event).1.finished = translator.finished := by
  cases event with
  | textDelta delta => exact (pushText_tools delta).2.trans (ensureOpen_same .text 0).finished
  | thinkingDelta delta =>
    exact (congrArg ResponseTranslator.finished (delta_same _ _ _)).trans (ensureOpen_same .thinking 0).finished
  | thinkingSignature signature =>
    rw [pushEvent]
    split
    · exact congrArg ResponseTranslator.finished (delta_same _ _ _)
    · rfl
  | textStart => exact (openBlock_same .text 0).finished
  | textEnd => exact (closeKind_same .text).finished
  | thinkingStart => exact (openBlock_same .thinking 0).finished
  | thinkingEnd => exact (closeKind_same .thinking).finished
  | toolCallStart index callId name =>
    rw [pushEvent, reserveTool]
    split <;> rfl
  | toolCallEnd index => exact (flushWhile_tools _ _ _).2
  | providerReplayState state => exact (redactedLoop_same _).finished
  | stopSequence sequence => exact (close_same _).finished
  | _ => rfl

theorem pushStopped_moves (shown : Framed translator frame)
    (fair : strict = true → ¬ Overtakes translator event) :
    Moves strict frame (translator.pushStopped event) ((translator.pushStopped event).1.tools.map Prod.fst) [] ∧
      Same translator (translator.pushStopped event).1 := by
  cases event with
  | providerReplayState state =>
    have same := @redactedLoop_same translator (replayBlocks state)
    refine ⟨?_, same⟩
    rw [pushStopped, redactedBlocks, same.tools]
    refine redactedLoop_moves shown fun strict block member redacted => ?_
    by_contra some
    exact fair strict ⟨fun none => some (by rw [none]; rfl), ⟨block, member, redacted⟩⟩
  | usage usage => exact ⟨.quiet ⟨shown.last, shown.waiting, shown.next⟩, ⟨rfl, rfl, rfl, rfl, rfl⟩⟩
  | done reason => exact ⟨.quiet ⟨shown.last, shown.waiting, shown.next⟩, ⟨rfl, rfl, rfl, rfl, rfl⟩⟩
  | _ => exact ⟨.quiet shown, .refl translator⟩

/-! ### The pushes of an answer -/

theorem stopped_pushes (answers : Answers translator frame read) (stopped : translator.stoppedBy.isSome = true)
    {events : List ModelEvent} (fair : strict = true → ¬ Overtaken translator events) :
    Pushes strict frame (translator.pushAll events) read := by
  induction events generalizing translator frame with
  | nil => exact ⟨[], frame, .nil, rfl, answers⟩
  | cons event events ih =>
    have pushed : translator.push event = translator.pushStopped event := by
      rw [push, answers.going, if_neg Bool.false_ne_true, if_pos stopped]
    obtain ⟨⟨labels, after, run, out, shown, calls⟩, same⟩ :=
      @pushStopped_moves strict translator event frame answers.framed fun here overtakes => fair here (.inl overtakes)
    have later : Answers (translator.pushStopped event).1 after read := by
      refine ⟨shown, same.finished.trans answers.going, ?_⟩
      rw [calls, append_nil, same.tools]
      exact answers.calls
    obtain ⟨rest, last, more, out', answers'⟩ := ih later (same.stoppedBy ▸ stopped)
      fun here overtaken => fair here (.inr (pushed ▸ overtaken))
    refine ⟨labels ++ rest, last, run.append more, ?_, ?_⟩
    · rw [pushAll, pushed, filterMap_append, out, out']
      rfl
    · rw [pushAll, pushed]
      exact answers'

/-- **The pushes send what is heard.** -/
theorem pushAll_pushes {events : List ModelEvent} {last : CycleState} (shown : Framed translator frame)
    (going : translator.finished = false) (tracks : Tracks machine translator.tools read done waiting)
    (called : frame.called = done.map (callOf read)) (started : machine.Started)
    (ran : events.foldlM (handle parse client) machine = .ok last)
    (fair : strict = true → ¬ Overtaken translator events) :
    Pushes strict frame (translator.pushAll events) (read ++ heard translator events) := by
  have answers : Answers translator frame read := ⟨shown, going, by rw [called, toolCalls_eq tracks]⟩
  induction events generalizing translator frame machine read done waiting with
  | nil =>
    rw [heard, append_nil]
    exact ⟨[], frame, .nil, rfl, answers⟩
  | cons event events ih =>
    by_cases stopped : translator.stoppedBy.isSome = true
    · rw [heard, if_pos stopped, append_nil]
      exact stopped_pushes answers stopped fair
    · have live : translator.stoppedBy = none := Option.not_isSome_iff_eq_none.mp stopped
      have pushed : translator.push event = translator.pushEvent event := by
        rw [push, going, if_neg Bool.false_ne_true, if_neg stopped]
      rw [foldlM_cons] at ran
      obtain ⟨next, ok, ran⟩ := except_bind_eq_ok.mp ran
      obtain ⟨labels, after, run, out, shown', calls⟩ := @pushEvent_moves strict translator frame event shown live
        fun here overtakes => fair here (.inl overtakes)
      obtain ⟨first, rest, tracks', delivers⟩ := tracks_push tracks started ok
      have called' : after.called = (done ++ first).map (callOf (read ++ [event])) := by
        rw [calls, delivers, called, map_append, callOf_ended tracks started ok]
      have going' := (pushEvent_finished event).trans going
      have later : Answers (translator.pushEvent event).1 after (read ++ [event]) :=
        ⟨shown', going', by rw [called', toolCalls_eq tracks']⟩
      obtain ⟨more, final, run', out', answers'⟩ := ih shown' going' tracks' called'
        (keeps_started machine event next started ok) ran
        (fun here overtaken => fair here (.inr (pushed ▸ overtaken))) later
      rw [heard, if_neg stopped, pushAll, pushed]
      refine ⟨labels ++ more, final, run.append run', ?_, ?_⟩
      · rw [filterMap_append, out, out']
        rfl
      · rw [← append_cons] at answers'
        exact answers'

/-! ### The end of an answer -/

theorem finishAll_moves (answers : Answers translator frame read) :
    ∃ sent : Sent, Moves strict frame sent [] (translator.tools.map fun entry => PendingTool.call entry.2) ∧
      sent.1.opened = none ∧ translator.finishAll.2 = sent.2 ++ sent.1.closing := by
  have start : Frames { translator with finished := true, tools := [] } (translator.tools.map Prod.fst) frame :=
    ⟨answers.framed.last, answers.framed.waiting, answers.framed.next⟩
  have flushed := @flushWhile_moves strict _ frame (fun _ => true) translator.tools start
  have all : translator.tools.takeWhile (fun _ => true) = translator.tools :=
    takeWhile_eq_self_iff.mpr fun _ _ => rfl
  have none : translator.tools.dropWhile (fun _ => true) = [] := dropWhile_eq_nil_iff.mpr fun _ _ => rfl
  rw [all, none] at flushed
  have closed := flushed.andThen fun after shown => @close_moves strict _ after _ shown
  rw [append_nil] at closed
  refine ⟨_, closed, close_closes _, ?_⟩
  rw [finishAll, answers.going, if_neg Bool.false_ne_true]
  exact (append_assoc _ _ _).symm

/-- What an answer is: its blocks, and the end of the message. -/
structure Complete (blocks : List SentBlock) (calls : List (String × String × String)) (out : List StreamEvent) :
    Prop where
  events : ∃ stopReason stopSequence usage,
    out = blocks.flatMap SentBlock.events ++ [.messageDelta stopReason stopSequence usage, .messageStop]
  proper : ∀ block ∈ blocks, block.Proper
  indexes : (blocks.map SentBlock.index).Perm (List.range blocks.length)
  calls : blocks.filterMap SentBlock.call? = calls

/-! ### Answers without stop sequences -/

theorem pendingSuffix_none (text : List Char) : pendingSuffix [] text = 0 := by
  induction text with
  | nil => rfl
  | cons character text ih => exact ih

theorem StopFilter.push_none {filter : StopFilter} (sequences : filter.sequences = []) (going : filter.stopped = none)
    (delta : String) : filter.push delta = ({ filter with buffer := "" }, filter.buffer ++ delta) := by
  have kept : pendingSuffix filter.sequences (filter.buffer ++ delta).toList = 0 := by
    rw [sequences]
    exact pendingSuffix_none _
  have nothing : earliestMatch (filter.buffer ++ delta) filter.sequences = none := by
    rw [sequences]
    rfl
  simp only [StopFilter.push, going, nothing, kept, Nat.sub_zero, drop_length, take_length,
    String.ofList_toList]
  rfl

/-- No stop sequence can be hit, and none was. -/
structure Unstopped (translator : ResponseTranslator) : Prop where
  sequences : translator.text.sequences = []
  stopped : translator.text.stopped = none
  stoppedBy : translator.stoppedBy = none

theorem Unstopped.of_same {before after : ResponseTranslator} (unstopped : Unstopped before) (same : Same before after) :
    Unstopped after :=
  ⟨same.sequences.trans unstopped.sequences, same.stopped.trans unstopped.stopped,
    same.stoppedBy.trans unstopped.stoppedBy⟩

theorem flushWhile_unstopped (ready : PendingTool → Bool) (tools : List (Nat × PendingTool))
    (unstopped : Unstopped translator) : Unstopped (translator.flushWhile ready tools).1 := by
  induction tools generalizing translator with
  | nil => exact ⟨unstopped.sequences, unstopped.stopped, unstopped.stoppedBy⟩
  | cons entry tools ih =>
    obtain ⟨index, tool⟩ := entry
    rw [flushWhile]
    split
    · exact ih (unstopped.of_same (close_same translator))
    · exact ⟨unstopped.sequences, unstopped.stopped, unstopped.stoppedBy⟩

theorem pushText_unstopped (unstopped : Unstopped translator) (delta : String) :
    Unstopped (translator.pushText delta).1 := by
  have filtered := StopFilter.push_none unstopped.sequences unstopped.stopped delta
  rw [pushText, filtered]
  dsimp only [Sent.andThen]
  rw [sendText_same, stopText, if_neg (by simp [unstopped.stopped])]
  exact ⟨unstopped.sequences, unstopped.stopped, unstopped.stoppedBy⟩

theorem pushEvent_unstopped (unstopped : Unstopped translator) (other : ∀ sequence, event ≠ .stopSequence sequence) :
    Unstopped (translator.pushEvent event).1 := by
  cases event with
  | textDelta delta => exact pushText_unstopped (unstopped.of_same (ensureOpen_same .text 0)) delta
  | thinkingDelta delta =>
    show Unstopped (ResponseTranslator.delta _ _ _ _).1
    rw [delta_same]
    exact unstopped.of_same (ensureOpen_same .thinking 0)
  | thinkingSignature signature =>
    rw [pushEvent]
    split
    · rw [delta_same]
      exact unstopped
    · exact unstopped
  | textStart => exact unstopped.of_same (openBlock_same .text 0)
  | textEnd => exact unstopped.of_same (closeKind_same .text)
  | thinkingStart => exact unstopped.of_same (openBlock_same .thinking 0)
  | thinkingEnd => exact unstopped.of_same (closeKind_same .thinking)
  | toolCallStart index callId name =>
    rw [pushEvent, reserveTool]
    split
    · exact unstopped
    · exact ⟨unstopped.sequences, unstopped.stopped, unstopped.stoppedBy⟩
  | toolCallEnd index =>
    exact flushWhile_unstopped _ _ ⟨unstopped.sequences, unstopped.stopped, unstopped.stoppedBy⟩
  | providerReplayState state => exact unstopped.of_same (redactedLoop_same _)
  | stopSequence sequence => exact absurd rfl (other sequence)
  | _ => exact ⟨unstopped.sequences, unstopped.stopped, unstopped.stoppedBy⟩

theorem heard_all {events : List ModelEvent} (unstopped : Unstopped translator) (going : translator.finished = false)
    (other : ∀ sequence, .stopSequence sequence ∉ events) : heard translator events = events := by
  induction events generalizing translator with
  | nil => rfl
  | cons event events ih =>
    have pushed : translator.push event = translator.pushEvent event := by
      rw [push, going, if_neg Bool.false_ne_true, if_neg (by simp [unstopped.stoppedBy])]
    rw [heard, if_neg (by simp [unstopped.stoppedBy]), pushed]
    refine congrArg _ (ih (pushEvent_unstopped unstopped fun sequence equal => ?_) ?_ fun sequence member => ?_)
    · exact other sequence (equal ▸ mem_cons_self)
    · exact (pushEvent_finished event).trans going
    · exact other sequence (mem_cons_of_mem _ member)

/-! ### The stream of an answer -/

section Respond

variable {messageId model : String} {stopSequences : List String} {tokens : Nat} {events : List ModelEvent}

theorem respond_complete {last : CycleState} (ran : events.foldlM (handle parse client) .initial = .ok last)
    (fair : strict = true → ¬ Overtaken (new messageId model stopSequences tokens) events) :
    ∃ blocks, Complete blocks (toolCalls (heard (new messageId model stopSequences tokens) events))
        ((new messageId model stopSequences tokens).respond events) ∧
      (strict = true → blocks.map SentBlock.index = List.range blocks.length) := by
  have shown : Framed (new messageId model stopSequences tokens) {} := ⟨.none, rfl, rfl⟩
  obtain ⟨labels, frame, run, out, answers⟩ := pushAll_pushes shown rfl Tracks.initial rfl initial_started ran fair
  obtain ⟨sent, ⟨more, after, run', out', shown', calls⟩, closed, finish⟩ := @finishAll_moves strict _ _ _ answers
  have whole := run.append run'
  have events' := run_events whole
  have here := closed_last shown' closed
  have order : after.order = after.blocks.map SentBlock.index := by
    rw [here]
    simp [Frame.order, Frame.sent]
  have sent' : after.sent = after.blocks := by
    rw [here]
    exact append_nil _
  have indexes := run_indexes (List.Perm.refl _ : ({} : Frame).order.Perm (List.range 0)) whole
  have next : after.next = after.blocks.length := by
    have length := indexes.length_eq
    rw [order, length_map, length_range] at length
    exact length.symm
  rw [order, next] at indexes
  refine ⟨after.blocks, ⟨⟨sent.1.stopReason, sent.1.stoppedBy, sent.1.usageJson, ?_⟩, ?_, indexes, ?_⟩, ?_⟩
  · have blocks : after.events = after.blocks.flatMap SentBlock.events := by
      rw [here]
      exact append_nil _
    show (pushAll _ events).2 ++ (finishAll _).2 = _
    rw [finish, ← append_assoc, ← out, ← out', ← filterMap_append, ← blocks, events']
    rfl
  · have proper := run_proper (fun _ none => absurd none not_mem_nil) whole
    rw [Frame.Proper, sent'] at proper
    exact proper
  · have all := answers.calls
    rw [← calls, Frame.called, sent', nil_append] at all
    exact all
  · rintro rfl
    have ordered := run_ordered (rfl : ({} : Frame).order = List.range 0) whole
    rwa [order, next] at ordered

theorem ran_of_accepted {result : CompletedCycle}
    (accepted : (consumeModelCycle parse client (events.map .event)).2 = .ok result) :
    ∃ last, events.foldlM (handle parse client) .initial = .ok last := by
  obtain ⟨body, reason, last, rfl, -, ran, started, closed⟩ := consume_ok rfl accepted
  refine ⟨{ last with finish := some reason }, ?_⟩
  rw [foldlM_append, ran]
  simp only [except_ok_bind, foldlM_cons, foldlM_nil, handle, Option.isNone_eq_false_iff.mpr started, closed]
  rfl

/-- **The stream of an answer of the gateway.** For the events of each model call that is answered, and any stop
sequences: the blocks follow each other, each with deltas of its kind; their indexes are `0`, `1`, … and come in
that order where no block overtakes a tool that waits; each call that is heard is one block with its whole
argument text, and without stop sequences all are heard; and the end of the message comes once, behind them. -/
theorem respond_framed {result : CompletedCycle}
    (accepted : (consumeModelCycle parse client (events.map .event)).2 = .ok result) :
    (∃ blocks, Complete blocks (toolCalls (heard (new messageId model stopSequences tokens) events))
        ((new messageId model stopSequences tokens).respond events) ∧
      (¬ Overtaken (new messageId model stopSequences tokens) events →
        blocks.map SentBlock.index = List.range blocks.length)) ∧
    (stopSequences = [] → (∀ sequence, .stopSequence sequence ∉ events) →
      heard (new messageId model stopSequences tokens) events = events) := by
  obtain ⟨last, ran⟩ := ran_of_accepted accepted
  refine ⟨?_, fun none other => heard_all ⟨none, rfl, rfl⟩ rfl other⟩
  by_cases fair : Overtaken (new messageId model stopSequences tokens) events
  · obtain ⟨blocks, complete, -⟩ := @respond_complete _ _ false messageId model stopSequences tokens _ _ ran
      fun strict => absurd strict Bool.false_ne_true
    exact ⟨blocks, complete, fun none => absurd fair none⟩
  · obtain ⟨blocks, complete, ordered⟩ := @respond_complete _ _ true messageId model stopSequences tokens _ _ ran
      fun _ => fair
    exact ⟨blocks, complete, fun _ => ordered rfl⟩

end Respond

/-! ### Samples -/

/-- Reads an empty object. -/
def readObject (text : String) : Except String Value :=
  if text = "\x7b\x7d" then .ok (.object []) else .error "expected value"

/-- Two tools, of which the second ends first. -/
def twoTools : List ModelEvent :=
  [.start "call", .textStart, .textDelta "so", .textEnd, .toolCallStart 1 "a" "read", .toolCallStart 2 "b" "list",
    .toolCallArgumentsDelta 2 "\x7b\x7d", .toolCallEnd 2, .toolCallArgumentsDelta 1 "\x7b\x7d", .toolCallEnd 1,
    .done .toolUse]

/-- Both calls of the stream come in the order of their starts. -/
theorem respond_framed_twoTools :
    ∃ blocks, Complete blocks [("a", "read", "\x7b\x7d"), ("b", "list", "\x7b\x7d")]
        ((new "message" "model" [] 0).respond twoTools) ∧
      blocks.map SentBlock.index = List.range blocks.length := by
  obtain ⟨⟨blocks, complete, ordered⟩, all⟩ := @respond_framed readObject .absent "message" "model" [] 0 twoTools _ rfl
  rw [all rfl (by simp [twoTools])] at complete
  exact ⟨blocks, complete, ordered (by decide)⟩

/-- Text behind the start of a tool. -/
def textBehindTool : List ModelEvent :=
  [.start "call", .toolCallStart 0 "a" "read", .textStart, .textDelta "so", .textEnd, .toolCallEnd 0, .done .toolUse]

/-- A tool behind a stop sequence. -/
def toolBehindStop : List ModelEvent :=
  [.start "call", .textStart, .textDelta "so STOP", .textEnd, .toolCallStart 0 "a" "read", .toolCallEnd 0, .done .toolUse]

/-- The index and the type of a block that starts. -/
def blockStart : StreamEvent → Option (Nat × String)
  | .contentBlockStart index block => ((block.get "type").bind Value.asStr).map (index, ·)
  | _ => none

/-- **A block that overtakes a tool is sent before it, with a higher index; a call behind a stop sequence is not sent.** -/
theorem respond_not_literal :
    (∃ result, (consumeModelCycle readObject .absent (textBehindTool.map .event)).2 = .ok result) ∧
    ((new "message" "model" [] 0).respond textBehindTool).filterMap blockStart = [(1, "text"), (0, "tool_use")] ∧
    (∃ result, (consumeModelCycle readObject .absent (toolBehindStop.map .event)).2 = .ok result) ∧
    toolCalls toolBehindStop = [("a", "read", "")] ∧
    ((new "message" "model" ["STOP"] 0).respond toolBehindStop).filterMap blockStart = [(0, "text")] :=
  ⟨⟨_, rfl⟩, by decide +kernel, ⟨_, rfl⟩, by decide +kernel, by decide +kernel⟩

end Byok.Gateway
