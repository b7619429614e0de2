/-
**What the OpenAI Chat adapter makes of a response.**

Each tool call is a merge of its own fragments, whatever comes between them (`Tracked`). Snapshots give the
arguments; increments give them exactly when none looks like a snapshot of what came before it.

* `tracked_chunk` — what the fragments of a chunk do to the calls, and to the model call.
* `tracks_events` — the whole stream.
* `chat_decodes_iff` — the responses that are decoded.
-/

import Byok.Library.Snapshots
import Byok.Provider.OpenAiChat

namespace Byok.Provider.OpenAiChat

open Library CycleState

/-! ### What an upstream sends -/

/-- A call, and whether its fragments are snapshots. -/
structure ChatCall where
  index : Nat
  callId : String
  name : String
  text : String
  arguments : List (String × Value)
  snapshots : Bool

def ChatCall.sent (call : ChatCall) : SentCall :=
  ⟨call.index, call.callId, call.name, some call.text, call.arguments⟩

/-- A response, and the `finish_reason` that its upstream gives. -/
structure ChatResponse where
  content : String
  reasoning : String
  calls : List ChatCall
  finish : String

def ChatResponse.sent (response : ChatResponse) : SentAnswer :=
  ⟨response.content, response.reasoning, response.calls.map ChatCall.sent⟩

/-- The fragments of one index. -/
def fragmentsAt (index : Nat) (fragments : List ToolFragment) : List ToolFragment :=
  fragments.filter fun fragment => fragment.index = index

/-- The pieces of arguments in some fragments. -/
def pieces (fragments : List ToolFragment) : List (List Char) :=
  (fragments.filterMap ToolFragment.arguments).map String.toList

/-- A later fragment leaves a field out, or repeats it. -/
def Repeats (value : String) (field : Option String) : Prop :=
  ∀ fragment ∈ field, fragment = "" ∨ fragment = value

/-- The fragments of a call: its id and its name come first, and its arguments in increments or as
snapshots. -/
structure ChatCall.Sends (call : ChatCall) (fragments : List ToolFragment) : Prop where
  first : ∃ fragment rest, fragments = fragment :: rest ∧ fragment.callId = some call.callId ∧
    fragment.name = some call.name ∧ ∀ later ∈ rest, Repeats call.callId later.callId ∧
      Repeats call.name later.name
  increments : call.snapshots = false → (pieces fragments).flatten = call.text.toList
  snapshots : call.snapshots = true →
    (pieces fragments).Pairwise (· <+: ·) ∧ (pieces fragments).getLastD [] = call.text.toList

/-- The chunk that an event carries. -/
def chunkOf (sse : SseEvent) : Option ChatChunk :=
  match sse.json with
  | .ok value => ChatChunk.read value
  | .error _ => none

def chunksOf (sses : List SseEvent) : List ChatChunk := sses.filterMap chunkOf

def fragmentsOf (sses : List SseEvent) : List ToolFragment := (chunksOf sses).flatMap ChatChunk.tools

/-- The label of an answer that is complete. -/
def Fits (response : ChatResponse) : Prop :=
  response.finish ≠ "length" ∧
    (response.calls = [] → response.finish ≠ "tool_calls" ∧ response.finish ≠ "function_call") ∧
    (response.calls ≠ [] → response.finish ≠ "content_filter")

/-- Some events send a response: its texts cut anywhere, the fragments of its calls in any order, and its
`finish_reason` behind them. -/
structure Sends (parse : String → Except String Value) (response : ChatResponse) (sses : List SseEvent) :
    Prop where
  carries : ∀ sse ∈ sses, ∃ value, Adapter.Carries "OpenAI Chat" sse value
  content : String.join ((chunksOf sses).map ChatChunk.content) = response.content
  reasoning : String.join ((chunksOf sses).map ChatChunk.reasoning) = response.reasoning
  indexes : (response.calls.map ChatCall.index).Nodup
  callIds : (response.calls.map ChatCall.callId).Nodup
  named : ∀ call ∈ response.calls, call.callId ≠ "" ∧ call.name ≠ ""
  objects : ∀ call ∈ response.calls, trim call.text ≠ "" ∧ parse call.text = .ok (.object call.arguments)
  owned : ∀ fragment ∈ fragmentsOf sses, ∃ call ∈ response.calls, call.index = fragment.index
  calls : ∀ call ∈ response.calls, call.Sends (fragmentsAt call.index (fragmentsOf sses))
  finish : ∃ chunks last, chunksOf sses = chunks ++ [last] ∧ last.finish = some response.finish ∧
    ∀ chunk ∈ chunks, chunk.finish = none
  fits : Fits response

/-! ### One call -/

theorem toList_mergeChatFragment (target fragment : String) :
    (mergeChatFragment target fragment).toList = merge target.toList fragment.toList := by
  unfold mergeChatFragment merge
  split_ifs
  · rfl
  · rfl
  · rw [String.toList_append]

/-- What fragments make of the arguments. -/
def gathered (fragments : List ToolFragment) : String := String.ofList (accumulate (pieces fragments))

theorem gathered_concat (fragments : List ToolFragment) (fragment : ToolFragment) :
    gathered (fragments ++ [fragment]) = mergeField (gathered fragments) fragment.arguments := by
  apply String.toList_inj.mp
  unfold gathered pieces
  cases here : fragment.arguments with
  | none => simp [List.filterMap_append, here, mergeField]
  | some text =>
    rw [mergeField, toList_mergeChatFragment]
    simp only [List.filterMap_append, List.filterMap_cons, here, List.filterMap_nil, List.map_append,
      List.map_cons, List.map_nil, accumulate_concat, String.toList_ofList]

theorem prefix_mergeField (target : String) (field : Option String) :
    target.toList <+: (mergeField target field).toList := by
  cases field with
  | none => exact List.prefix_refl _
  | some fragment =>
    rw [mergeField, toList_mergeChatFragment]
    exact prefix_merge _ _

theorem mergeField_first (value : String) : mergeField "" (some value) = value := by
  apply String.toList_inj.mp
  rw [mergeField, toList_mergeChatFragment]
  exact merge_nil_left value.toList

theorem mergeField_repeats {value : String} {field : Option String} (repeats : Repeats value field) :
    mergeField value field = value := by
  cases field with
  | none => rfl
  | some fragment =>
    apply String.toList_inj.mp
    rw [mergeField, toList_mergeChatFragment]
    apply merge_old
    rcases repeats fragment rfl with rfl | rfl
    · exact List.nil_prefix
    · exact List.prefix_refl _

/-- The tool of a call that has started, and sent on all of its arguments. -/
def ChatCall.tool (call : ChatCall) (text : String) : ChatToolState :=
  ⟨call.callId, call.name, text, text.length, true⟩

theorem emit_started {tool : ChatToolState} {old : String} (index : Nat) (started : tool.started = true)
    (emitted : tool.emittedArguments = old.length) (grown : old.toList <+: tool.arguments.toList) :
    tool.emit index =
      (remainder index old tool.arguments, { tool with emittedArguments := tool.arguments.length }) := by
  unfold ChatToolState.emit remainder
  by_cases more : old.length < tool.arguments.length
  · rw [if_pos (by simp [started, emitted, more]), if_pos more, emitted]
  · have same : tool.arguments.length = tool.emittedArguments := by
      have longer := grown.length_le
      rw [String.length_toList, String.length_toList] at longer
      omega
    rw [if_neg (by simp [started, emitted, more]), if_neg more, same]

theorem update_first {call : ChatCall} {tools : Std.TreeMap Nat ChatToolState} {fragment : ToolFragment}
    (here : fragment.index = call.index) (unused : tools[call.index]? = none)
    (named : call.callId ≠ "" ∧ call.name ≠ "") (callId : fragment.callId = some call.callId)
    (name : fragment.name = some call.name) :
    updateChatTool tools fragment =
      ([ModelEvent.toolCallStart call.index call.callId call.name] ++
          remainder call.index "" (mergeField "" fragment.arguments),
        tools.insert call.index (call.tool (mergeField "" fragment.arguments))) := by
  have merged : ChatToolState.fresh.merge fragment =
      ⟨call.callId, call.name, mergeField "" fragment.arguments, 0, false⟩ := by
    rw [ChatToolState.merge, callId, name]
    simp only [ChatToolState.fresh, mergeField_first]
  have starts : (ChatToolState.fresh.merge fragment).start call.index =
      ([.toolCallStart call.index call.callId call.name],
        ⟨call.callId, call.name, mergeField "" fragment.arguments, 0, true⟩) := by
    rw [merged, ChatToolState.start, if_pos (by simp [named])]
  simp only [updateChatTool, here, unused, Option.getD_none, starts]
  rw [@emit_started _ "" call.index rfl rfl List.nil_prefix]
  rfl

theorem update_later {call : ChatCall} {tools : Std.TreeMap Nat ChatToolState} {fragment : ToolFragment}
    {text : String} (here : fragment.index = call.index) (known : tools[call.index]? = some (call.tool text))
    (callId : Repeats call.callId fragment.callId) (name : Repeats call.name fragment.name) :
    updateChatTool tools fragment =
      (remainder call.index text (mergeField text fragment.arguments),
        tools.insert call.index (call.tool (mergeField text fragment.arguments))) := by
  have merged : (call.tool text).merge fragment =
      ⟨call.callId, call.name, mergeField text fragment.arguments, text.length, true⟩ := by
    simp only [ChatToolState.merge, ChatCall.tool, mergeField_repeats callId, mergeField_repeats name]
  have goes_on : ((call.tool text).merge fragment).start call.index =
      ([], ⟨call.callId, call.name, mergeField text fragment.arguments, text.length, true⟩) := by
    rw [merged]
    rfl
  simp only [updateChatTool, here, known, Option.getD_some, goes_on, List.nil_append]
  rw [emit_started call.index rfl rfl (prefix_mergeField text fragment.arguments)]
  rfl

/-! ### The calls of a response -/

/-- The fragments that have come of the calls, what the adapter has made of them, and what the model call
has. -/
structure Tracked (calls : List ChatCall) (modelCallId : String) (fragments : List ToolFragment)
    (tools : Std.TreeMap Nat ChatToolState) (read : Std.TreeMap Nat OpenTool) (callIds : List String) :
    Prop where
  idle : ∀ index : Nat, fragmentsAt index fragments = [] → tools[index]? = none ∧ read[index]? = none
  busy : ∀ call ∈ calls, fragmentsAt call.index fragments ≠ [] →
    tools[call.index]? = some (call.tool (gathered (fragmentsAt call.index fragments))) ∧
    read[call.index]? = some (holding modelCallId call.index call.callId call.name
      (gathered (fragmentsAt call.index fragments)))
  callIds : ∀ callId ∈ callIds, ∃ call ∈ calls, call.callId = callId ∧
    fragmentsAt call.index fragments ≠ []

theorem tracked_nil (calls : List ChatCall) (modelCallId : String) :
    Tracked calls modelCallId [] ∅ ∅ [] where
  idle _ _ := ⟨Std.TreeMap.getElem?_emptyc, Std.TreeMap.getElem?_emptyc⟩
  busy _ _ some := absurd rfl some
  callIds _ member := absurd member List.not_mem_nil

theorem fragmentsAt_append (index : Nat) (fragments others : List ToolFragment) :
    fragmentsAt index (fragments ++ others) = fragmentsAt index fragments ++ fragmentsAt index others :=
  List.filter_append ..

theorem fragmentsAt_here {index : Nat} {fragment : ToolFragment} (here : fragment.index = index)
    (fragments : List ToolFragment) :
    fragmentsAt index (fragments ++ [fragment]) = fragmentsAt index fragments ++ [fragment] := by
  rw [fragmentsAt_append]
  simp [fragmentsAt, here]

theorem fragmentsAt_other {index : Nat} {fragment : ToolFragment} (other : fragment.index ≠ index)
    (fragments : List ToolFragment) :
    fragmentsAt index (fragments ++ [fragment]) = fragmentsAt index fragments := by
  rw [fragmentsAt_append]
  simp [fragmentsAt, other]

variable {parse : String → Except String Value} {response : ChatResponse} {modelCallId : String}
  {cycle : CycleState}

theorem Tracked.moves {calls : List ChatCall} {before : List ToolFragment}
    {tools later : Std.TreeMap Nat ChatToolState} {read read' : Std.TreeMap Nat OpenTool}
    {callIds callIds' : List String} {call : ChatCall} {fragment : ToolFragment}
    (tracked : Tracked calls modelCallId before tools read callIds)
    (distinct : (calls.map ChatCall.index).Nodup) (member : call ∈ calls)
    (here : fragment.index = call.index)
    (changed : ∀ index : Nat, later[index]? = if call.index = index then
      some (call.tool (gathered (fragmentsAt call.index before ++ [fragment]))) else tools[index]?)
    (known : ∀ index : Nat, read'[index]? = if call.index = index then
      some (holding modelCallId call.index call.callId call.name
        (gathered (fragmentsAt call.index before ++ [fragment]))) else read[index]?)
    (ids : ∀ callId ∈ callIds', callId ∈ callIds ∨ callId = call.callId) :
    Tracked calls modelCallId (before ++ [fragment]) later read' callIds' where
  idle index none := by
    by_cases same : call.index = index
    · rw [fragmentsAt_here (here.trans same)] at none
      exact absurd none (List.append_ne_nil_of_right_ne_nil _ (List.cons_ne_nil _ _))
    · rw [fragmentsAt_other (fun equal => same (here.symm.trans equal))] at none
      rw [changed, known, if_neg same, if_neg same]
      exact tracked.idle index none
  busy other held some := by
    by_cases same : call.index = other.index
    · obtain rfl := List.inj_on_of_nodup_map distinct member held same
      rw [changed, known, if_pos rfl, if_pos rfl, fragmentsAt_here here]
      exact ⟨rfl, rfl⟩
    · have apart := fragmentsAt_other (fun equal => same (here.symm.trans equal)) before
      rw [apart] at some ⊢
      rw [changed, known, if_neg same, if_neg same]
      exact tracked.busy other held some
  callIds callId inside := by
    rcases ids callId inside with old | rfl
    · obtain ⟨other, held, same, some⟩ := tracked.callIds callId old
      refine ⟨other, held, same, ?_⟩
      rw [fragmentsAt_append]
      exact List.append_ne_nil_of_left_ne_nil some _
    · refine ⟨call, member, rfl, ?_⟩
      rw [fragmentsAt_here here]
      exact List.append_ne_nil_of_right_ne_nil _ (List.cons_ne_nil _ _)

theorem tracked_fragment {sses : List SseEvent} {tools : Std.TreeMap Nat ChatToolState}
    {before after : List ToolFragment} {fragment : ToolFragment} (sends : Sends parse response sses)
    (whole : fragmentsOf sses = before ++ fragment :: after) (started : cycle.modelCallId = some modelCallId)
    (tracked : Tracked response.calls modelCallId before tools cycle.tools cycle.callIds) :
    ∃ read callIds, Reads parse cycle (updateChatTool tools fragment).1
        { cycle with tools := read, callIds := callIds } ∧
      Tracked response.calls modelCallId (before ++ [fragment]) (updateChatTool tools fragment).2 read
        callIds := by
  obtain ⟨call, member, here⟩ := sends.owned fragment (by rw [whole]; simp)
  have here := here.symm
  obtain ⟨first, rest, fragments, callId, name, repeats⟩ := (sends.calls call member).first
  have split : fragmentsAt call.index before ++ fragment :: fragmentsAt call.index after = first :: rest := by
    rw [← fragments, whole, fragmentsAt_append]
    simp [fragmentsAt, here]
  have grows : gathered (fragmentsAt call.index before ++ [fragment]) =
      mergeField (gathered (fragmentsAt call.index before)) fragment.arguments := gathered_concat _ _
  cases old : fragmentsAt call.index before with
  | nil =>
    rw [old, List.nil_append] at split
    obtain ⟨rfl, -⟩ := List.cons.inj split
    obtain ⟨unused, unread⟩ := tracked.idle call.index old
    rw [old] at grows
    have fresh : call.callId ∉ cycle.callIds := by
      intro used
      obtain ⟨other, held, same, some⟩ := tracked.callIds _ used
      obtain rfl := List.inj_on_of_nodup_map sends.callIds held member same
      exact some old
    rw [update_first here unused (sends.named call member) callId name]
    have starts := @reads_startTool parse cycle modelCallId call.index call.callId call.name started unread fresh
    obtain ⟨read, extends', known⟩ := @reads_extend parse
      { cycle with
        tools := cycle.tools.insert call.index (.start modelCallId call.index call.callId call.name)
        callIds := call.callId :: cycle.callIds } modelCallId call.callId call.name ""
      (mergeField "" fragment.arguments) call.index (by rw [found_insert, if_pos rfl]; rfl) List.nil_prefix
    refine ⟨read, _, starts.append extends', tracked.moves sends.indexes member here (fun index => ?_)
      (fun index => ?_) fun id inside => (List.mem_cons.mp inside).symm⟩
    · rw [Std.TreeMap.getElem?_insert, old, grows]
      simp only [Std.compare_eq_iff_eq]
      rfl
    · rw [known, old, grows]
      by_cases same : call.index = index
      · rw [if_pos same, if_pos same]
        rfl
      · rw [if_neg same, if_neg same, found_insert, if_neg same]
  | cons earlier more =>
    rw [old, List.cons_append] at split
    obtain ⟨rfl, tail⟩ := List.cons.inj split
    have later : fragment ∈ rest := by
      rw [← tail]
      simp
    obtain ⟨known, found⟩ := tracked.busy call member (by rw [old]; exact List.cons_ne_nil _ _)
    rw [update_later here known (repeats fragment later).1 (repeats fragment later).2]
    obtain ⟨read, extends', held⟩ := reads_extend found (prefix_mergeField _ fragment.arguments)
    refine ⟨read, cycle.callIds, extends', tracked.moves sends.indexes member here (fun index => ?_)
      (fun index => ?_) fun id inside => .inl inside⟩
    · rw [Std.TreeMap.getElem?_insert, grows]
      simp only [Std.compare_eq_iff_eq]
    · rw [held, grows]

theorem tracked_chunk {sses : List SseEvent} (fragments : List ToolFragment)
    {tools : Std.TreeMap Nat ChatToolState} {before after : List ToolFragment}
    (sends : Sends parse response sses) (whole : fragmentsOf sses = before ++ fragments ++ after)
    (started : cycle.modelCallId = some modelCallId)
    (tracked : Tracked response.calls modelCallId before tools cycle.tools cycle.callIds) :
    ∃ read callIds, Reads parse cycle (updateChatTools tools fragments).1
        { cycle with tools := read, callIds := callIds } ∧
      Tracked response.calls modelCallId (before ++ fragments) (updateChatTools tools fragments).2 read
        callIds := by
  induction fragments generalizing cycle tools before with
  | nil =>
    rw [List.append_nil]
    exact ⟨cycle.tools, cycle.callIds, .none, tracked⟩
  | cons fragment fragments ih =>
    obtain ⟨read, callIds, first, between⟩ := @tracked_fragment parse response modelCallId cycle sses tools
      before (fragments ++ after) fragment sends (by rw [whole]; simp) started tracked
    obtain ⟨last, ids, rest, tracked⟩ := @ih { cycle with tools := read, callIds := callIds }
      (updateChatTool tools fragment).2 (before ++ [fragment]) (by rw [whole]; simp) started between
    rw [List.append_assoc] at tracked
    exact ⟨last, ids, first.append rest, tracked⟩

/-! ### A chunk -/

theorem reads_reasoning {state : ChatState} (text : String) (started : cycle.modelCallId.isSome)
    (same : cycle.thinkingOpen = state.thinkingOpen) :
    Reads parse cycle (state.think text).1
      { cycle with
        thinkingOpen := (state.think text).2.thinkingOpen
        reasoning := cycle.reasoning ++ text } := by
  unfold ChatState.think
  by_cases empty : text = ""
  · rw [if_pos empty, empty, ← same, String.append_empty]
    exact .none
  · rw [if_neg empty, ← same]
    exact (reads_openThinking started).append (reads_think text rfl)

theorem reads_content {state : ChatState} (text : String) (started : cycle.modelCallId.isSome)
    (textOpen : cycle.textOpen = state.textOpen) (thinkingOpen : cycle.thinkingOpen = state.thinkingOpen) :
    Reads parse cycle (state.say text).1
      { cycle with
        textOpen := (state.say text).2.textOpen
        thinkingOpen := (state.say text).2.thinkingOpen
        text := cycle.text ++ text } := by
  unfold ChatState.say
  by_cases empty : text = ""
  · rw [if_pos empty, empty, ← textOpen, ← thinkingOpen, String.append_empty]
    exact .none
  · rw [if_neg empty, ← textOpen, ← thinkingOpen]
    have closed : Reads parse cycle _ _ := reads_closeThinking
    have opened : Reads parse { cycle with thinkingOpen := false } _ _ := reads_openText started
    exact (closed.append opened).append (reads_say text rfl)

@[simp] theorem think_tools (state : ChatState) (text : String) : (state.think text).2.tools = state.tools := by
  unfold ChatState.think
  split_ifs <;> rfl

@[simp] theorem think_textOpen (state : ChatState) (text : String) :
    (state.think text).2.textOpen = state.textOpen := by
  unfold ChatState.think
  split_ifs <;> rfl

@[simp] theorem think_reasoning (state : ChatState) (text : String) :
    (state.think text).2.reasoning = state.reasoning ++ text := by
  unfold ChatState.think
  by_cases empty : text = ""
  · rw [if_pos empty, empty, String.append_empty]
  · rw [if_neg empty]

@[simp] theorem say_tools (state : ChatState) (text : String) : (state.say text).2.tools = state.tools := by
  unfold ChatState.say
  split_ifs <;> rfl

@[simp] theorem say_reasoning (state : ChatState) (text : String) :
    (state.say text).2.reasoning = state.reasoning := by
  unfold ChatState.say
  split_ifs <;> rfl

/-- The adapter, and the model call that reads it, after some events of a response. -/
structure Tracks (response : ChatResponse) (modelCallId : String) (before : List SseEvent)
    (state : ChatState) (cycle : CycleState) : Prop where
  started : cycle.modelCallId = some modelCallId
  textOpen : cycle.textOpen = state.textOpen
  thinkingOpen : cycle.thinkingOpen = state.thinkingOpen
  text : cycle.text = String.join ((chunksOf before).map ChatChunk.content)
  reasoning : cycle.reasoning = String.join ((chunksOf before).map ChatChunk.reasoning)
  kept : state.reasoning = cycle.reasoning
  replayState : cycle.replayState = none
  usage : cycle.usage = none
  calls : Tracked response.calls modelCallId (fragmentsOf before) state.tools cycle.tools cycle.callIds
  finish : ∀ chunks last reason, chunksOf before = chunks ++ [last] → last.finish = some reason →
    state.finish = some (mapFinish reason !state.tools.isEmpty)

theorem tracks_nil (response : ChatResponse) (modelCallId : String) :
    Tracks response modelCallId [] .initial (begun modelCallId) where
  started := rfl
  textOpen := rfl
  thinkingOpen := rfl
  text := rfl
  reasoning := rfl
  kept := rfl
  replayState := rfl
  usage := rfl
  calls := tracked_nil response.calls modelCallId
  finish chunks last reason equal _ := by cases chunks <;> cases equal

theorem Tracks.noteUsage {before : List SseEvent} {state : ChatState}
    (tracks : Tracks response modelCallId before state cycle) (value : Value) :
    Tracks response modelCallId before (state.noteUsage value) cycle := by
  unfold ChatState.noteUsage
  split
  · exact ⟨tracks.started, tracks.textOpen, tracks.thinkingOpen, tracks.text, tracks.reasoning, tracks.kept,
      tracks.replayState, tracks.usage, tracks.calls, tracks.finish⟩
  · exact tracks

theorem chunksOf_concat (before : List SseEvent) (sse : SseEvent) :
    chunksOf (before ++ [sse]) = chunksOf before ++ (chunkOf sse).toList := by
  rw [chunksOf, List.filterMap_append]
  cases here : chunkOf sse <;> simp [chunksOf, here]

theorem fragmentsOf_append (before after : List SseEvent) :
    fragmentsOf (before ++ after) = fragmentsOf before ++ fragmentsOf after := by
  rw [fragmentsOf, chunksOf, List.filterMap_append, List.flatMap_append]
  rfl

theorem noteFinish_eq (state : ChatState) (reason : Option String) :
    state.noteFinish reason = { state with
      finish := (reason.map fun reason => mapFinish reason !state.tools.isEmpty).or state.finish } := by
  cases reason <;> rfl

theorem tracks_chunk {sses before after : List SseEvent} {sse : SseEvent} {chunk : ChatChunk}
    {state : ChatState} (sends : Sends parse response sses) (whole : sses = before ++ sse :: after)
    (read : chunkOf sse = some chunk) (tracks : Tracks response modelCallId before state cycle) :
    ∃ later, Reads parse cycle (state.take chunk).1 later ∧
      Tracks response modelCallId (before ++ [sse]) (state.take chunk).2 later := by
  have concat := chunksOf_concat before sse
  rw [read, Option.toList_some] at concat
  have added : fragmentsOf (before ++ [sse]) = fragmentsOf before ++ chunk.tools := by
    rw [fragmentsOf, concat, List.flatMap_append]
    simp [fragmentsOf]
  have all : fragmentsOf sses = fragmentsOf before ++ chunk.tools ++ fragmentsOf after := by
    rw [whole, ← added, ← fragmentsOf_append, List.append_assoc]
    rfl
  have started : cycle.modelCallId.isSome := by rw [tracks.started]; rfl
  have thought := @reads_reasoning parse cycle state chunk.reasoning started tracks.thinkingOpen
  have said := @reads_content parse
    { cycle with
      thinkingOpen := (state.think chunk.reasoning).2.thinkingOpen
      reasoning := cycle.reasoning ++ chunk.reasoning }
    (state.think chunk.reasoning).2 chunk.content started (by rw [think_textOpen]; exact tracks.textOpen) rfl
  obtain ⟨tools, callIds, called, tracked⟩ := @tracked_chunk parse response modelCallId
    { cycle with
      textOpen := ((state.think chunk.reasoning).2.say chunk.content).2.textOpen
      thinkingOpen := ((state.think chunk.reasoning).2.say chunk.content).2.thinkingOpen
      text := cycle.text ++ chunk.content
      reasoning := cycle.reasoning ++ chunk.reasoning }
    sses chunk.tools ((state.think chunk.reasoning).2.say chunk.content).2.tools _ _ sends all tracks.started
    (by rw [say_tools, think_tools]; exact tracks.calls)
  have left : (state.take chunk).2 = ChatState.noteFinish
    { ((state.think chunk.reasoning).2.say chunk.content).2 with
      tools := (updateChatTools ((state.think chunk.reasoning).2.say chunk.content).2.tools chunk.tools).2 }
    chunk.finish := rfl
  rw [noteFinish_eq] at left
  refine ⟨_, (thought.append said).append called, ?_⟩
  rw [left]
  refine ⟨tracks.started, rfl, rfl, ?content, ?reasoned, ?kept, tracks.replayState, tracks.usage, ?calls, ?ended⟩
  case content =>
    rw [concat, List.map_append, String.join_append, ← tracks.text]
    simp
  case reasoned =>
    rw [concat, List.map_append, String.join_append, ← tracks.reasoning]
    simp
  case kept =>
    rw [say_reasoning, think_reasoning, tracks.kept]
  case calls =>
    rw [added]
    exact tracked
  case ended =>
    intro chunks last reason equal finished
    obtain ⟨-, same⟩ := List.append_inj' (concat.symm.trans equal) rfl
    obtain rfl := List.singleton_inj.mp same
    rw [finished]
    rfl

theorem tracks_event {sses before after : List SseEvent} {sse : SseEvent} {state : ChatState}
    (sends : Sends parse response sses) (whole : sses = before ++ sse :: after)
    (tracks : Tracks response modelCallId before state cycle) :
    ∃ next later, Follows adapter parse state cycle [sse] next later ∧
      Tracks response modelCallId (before ++ [sse]) next later := by
  obtain ⟨value, carries⟩ := sends.carries sse (by rw [whole]; simp)
  have tracks := tracks.noteUsage value
  have read : chunkOf sse = ChatChunk.read value := by rw [chunkOf, carries.json]
  cases here : ChatChunk.read value with
  | some chunk =>
    obtain ⟨later, reads, tracks⟩ := tracks_chunk sends whole (read.trans here) tracks
    refine ⟨_, later, .one carries ?_ reads, tracks⟩
    show ChatState.step state sse.event value = _
    rw [ChatState.step, here]
  | none =>
    have concat := chunksOf_concat before sse
    rw [read, here, Option.toList_none, List.append_nil] at concat
    have same : fragmentsOf (before ++ [sse]) = fragmentsOf before := by rw [fragmentsOf, concat, fragmentsOf]
    refine ⟨state.noteUsage value, cycle, .one carries ?_ .none, ?_⟩
    · show ChatState.step state sse.event value = _
      rw [ChatState.step, here]
    · refine ⟨tracks.started, tracks.textOpen, tracks.thinkingOpen, ?_, ?_, tracks.kept, tracks.replayState,
        tracks.usage, ?_, ?_⟩
      · rw [concat]
        exact tracks.text
      · rw [concat]
        exact tracks.reasoning
      · rw [same]
        exact tracks.calls
      · rw [concat]
        exact tracks.finish

theorem tracks_events {sses : List SseEvent} (sends : Sends parse response sses) (modelCallId : String) :
    ∃ last later, Follows adapter parse .initial (begun modelCallId) sses last later ∧
      Tracks response modelCallId sses last later :=
  follows_of_steps (tracks_nil response modelCallId) fun _ _ _ _ _ whole tracks =>
    tracks_event sends whole tracks

/-! ### The end of the stream -/

theorem Tracked.whole {sses : List SseEvent} {tools : Std.TreeMap Nat ChatToolState}
    {read : Std.TreeMap Nat OpenTool} {callIds : List String} (sends : Sends parse response sses)
    (tracked : Tracked response.calls modelCallId (fragmentsOf sses) tools read callIds) (index : Nat) :
    (∃ call ∈ response.calls, call.index = index ∧
      tools[index]? = some (call.tool (gathered (fragmentsAt index (fragmentsOf sses)))) ∧
      read[index]? = some (holding modelCallId index call.callId call.name
        (gathered (fragmentsAt index (fragmentsOf sses))))) ∨
    ((∀ call ∈ response.calls, call.index ≠ index) ∧ tools[index]? = none ∧ read[index]? = none) := by
  by_cases sent : ∃ call ∈ response.calls, call.index = index
  · obtain ⟨call, member, rfl⟩ := sent
    obtain ⟨fragment, rest, equal, -⟩ := (sends.calls call member).first
    refine .inl ⟨call, member, rfl, tracked.busy call member ?_⟩
    rw [equal]
    exact List.cons_ne_nil _ _
  · refine .inr ⟨fun call member same => sent ⟨call, member, same⟩, tracked.idle index ?_⟩
    refine List.filter_eq_nil_iff.mpr fun fragment member here => sent ?_
    obtain ⟨call, held, same⟩ := sends.owned fragment member
    exact ⟨call, held, same.trans (of_decide_eq_true here)⟩

theorem Tracked.started {sses : List SseEvent} {tools : Std.TreeMap Nat ChatToolState}
    {read : Std.TreeMap Nat OpenTool} {callIds : List String} (sends : Sends parse response sses)
    (tracked : Tracked response.calls modelCallId (fragmentsOf sses) tools read callIds) :
    ∀ entry ∈ tools.toList, entry.2.started := by
  intro entry member
  have found := Std.TreeMap.mem_toList_iff_getElem?_eq_some.mp member
  rcases tracked.whole sends entry.1 with ⟨call, -, -, known, -⟩ | ⟨-, absent, -⟩
  · rw [known] at found
    rw [← Option.some.inj found]
    rfl
  · rw [absent] at found
    cases found

theorem Tracked.isEmpty {sses : List SseEvent} {tools : Std.TreeMap Nat ChatToolState}
    {read : Std.TreeMap Nat OpenTool} {callIds : List String} (sends : Sends parse response sses)
    (tracked : Tracked response.calls modelCallId (fragmentsOf sses) tools read callIds) :
    tools.isEmpty = response.calls.isEmpty := by
  rw [← Std.TreeMap.isEmpty_toList, Bool.eq_iff_iff, List.isEmpty_iff, List.isEmpty_iff]
  constructor
  · intro none
    refine List.eq_nil_iff_forall_not_mem.mpr fun call member => ?_
    rcases tracked.whole sends call.index with ⟨_, -, -, known, -⟩ | ⟨other, -⟩
    · have entry := Std.TreeMap.mem_toList_iff_getElem?_eq_some.mpr known
      rw [none] at entry
      exact List.not_mem_nil entry
    · exact other call member rfl
  · intro none
    refine List.eq_nil_iff_forall_not_mem.mpr fun entry member => ?_
    rcases tracked.whole sends entry.1 with ⟨call, held, -⟩ | ⟨-, absent, -⟩
    · rw [none] at held
      exact List.not_mem_nil held
    · rw [Std.TreeMap.mem_toList_iff_getElem?_eq_some.mp member] at absent
      cases absent

theorem Tracked.ends {sses : List SseEvent} {tools : Std.TreeMap Nat ChatToolState} {callIds : List String}
    (sends : Sends parse response sses)
    (tracked : Tracked response.calls modelCallId (fragmentsOf sses) tools cycle.tools callIds) :
    ∃ read, Reads parse cycle ((tools.toList.map Prod.fst).map .toolCallEnd) { cycle with tools := read } ∧
      ∀ index : Nat, read[index]? = cycle.tools[index]?.map (·.close parse) := by
  have held : ∀ index, index ∈ tools.toList.map Prod.fst ↔ ∃ tool, tools[index]? = some tool := by
    intro index
    rw [List.mem_map]
    constructor
    · rintro ⟨entry, member, rfl⟩
      exact ⟨entry.2, Std.TreeMap.mem_toList_iff_getElem?_eq_some.mp member⟩
    · rintro ⟨tool, found⟩
      exact ⟨(index, tool), Std.TreeMap.mem_toList_iff_getElem?_eq_some.mpr found, rfl⟩
  have running : ∀ index ∈ tools.toList.map Prod.fst,
      ∃ tool, cycle.tools[index]? = some tool ∧ tool.ended = false := by
    intro index member
    rcases tracked.whole sends index with ⟨call, -, -, -, read⟩ | ⟨-, absent, -⟩
    · exact ⟨_, read, rfl⟩
    · obtain ⟨tool, found⟩ := (held index).mp member
      rw [absent] at found
      cases found
  have distinct : (tools.toList.map Prod.fst).Nodup := by
    refine List.pairwise_map.mpr (Std.TreeMap.ordered_keys_toList.imp fun {first second} less same => ?_)
    rw [same] at less
    exact Nat.lt_irrefl _ (Nat.compare_eq_lt.mp less)
  obtain ⟨read, ends, known⟩ := reads_endTools distinct running
  refine ⟨read, ends, fun index => ?_⟩
  rw [known]
  by_cases member : index ∈ tools.toList.map Prod.fst
  · rw [if_pos member]
  · rw [if_neg member]
    rcases tracked.whole sends index with ⟨call, -, -, found, -⟩ | ⟨-, -, absent⟩
    · exact absurd ((held index).mpr ⟨_, found⟩) member
    · rw [absent]
      rfl

theorem endTools_started {tools : List (Nat × ChatToolState)} (started : ∀ entry ∈ tools, entry.2.started) :
    ChatState.endTools tools = ((tools.map Prod.fst).map .toolCallEnd, .ok ()) := by
  induction tools with
  | nil => rfl
  | cons entry tools ih =>
    have ended : ChatState.endTool entry.1 entry.2 = ([.toolCallEnd entry.1], .ok ()) := by
      rw [ChatState.endTool, if_pos (started entry List.mem_cons_self)]
    rw [ChatState.endTools, ended, ih fun other member => started other (List.mem_cons_of_mem _ member)]
    rfl

theorem mapFinish_fits {hasTools : Bool} (fits : Fits response) (has : hasTools = !response.calls.isEmpty) :
    mapFinish response.finish hasTools ≠ .length ∧
      (mapFinish response.finish hasTools = .toolUse ↔ response.calls ≠ []) := by
  obtain ⟨complete, noCalls, calls⟩ := fits
  subst has
  unfold mapFinish
  split
  case h_1 label =>
    have some : response.calls ≠ [] := fun none => (noCalls none).1 label
    simp [some]
  case h_2 label =>
    have some : response.calls ≠ [] := fun none => (noCalls none).2 label
    simp [some]
  case h_3 label => exact absurd label complete
  case h_4 label =>
    have none : response.calls = [] := by_contra fun some => calls some label
    simp [none]
  case h_5 =>
    cases response.calls with
    | nil => simp
    | cons => simp

/-- What the model call has at the end. -/
structure Ended (parse : String → Except String Value) (response : ChatResponse) (modelCallId : String)
    (sses : List SseEvent) (ended : CycleState) : Prop where
  started : ended.modelCallId = some modelCallId
  text : ended.text = response.content
  reasoning : ended.reasoning = response.reasoning
  closed : ended.hasOpenBlock = false
  calls : ∀ call ∈ response.calls, ended.tools[call.index]? = some ((holding modelCallId call.index
    call.callId call.name (gathered (fragmentsAt call.index (fragmentsOf sses)))).close parse)
  only : ∀ (index : Nat) (tool : OpenTool), ended.tools[index]? = some tool →
    ∃ call ∈ response.calls, call.index = index

theorem tracks_end {sses : List SseEvent} {state : ChatState} (sends : Sends parse response sses)
    (tracks : Tracks response modelCallId sses state cycle) (marker : Bool) :
    ∃ body reason ended, adapter.close state marker = (body ++ [.done reason]).map .event ∧
      Reads parse cycle body ended ∧ Ended parse response modelCallId sses ended ∧ reason ≠ .length ∧
      (reason = .toolUse ↔ response.calls ≠ []) := by
  have whole := tracks.calls.whole sends
  obtain ⟨tools, ends, found⟩ := @Tracked.ends parse response modelCallId
    { cycle with thinkingOpen := false, textOpen := false } sses state.tools _ sends tracks.calls
  obtain ⟨chunks, last, all, finish, -⟩ := sends.finish
  have reason := tracks.finish chunks last response.finish all finish
  have fits := mapFinish_fits sends.fits (congrArg Bool.not (tracks.calls.isEmpty sends))
  have closing : state.closing marker = some (mapFinish response.finish !state.tools.isEmpty) := by
    rw [ChatState.closing, reason]
    rfl
  have blocks : Reads parse cycle _ _ := reads_closeBlocks tracks.thinkingOpen tracks.textOpen
  have usage := @reads_usages parse
    { cycle with thinkingOpen := false, textOpen := false, tools := tools } state.finalUsage tracks.usage
  have replay := @reads_replays parse
    { cycle with thinkingOpen := false, textOpen := false, tools := tools, usage := state.finalUsage }
    state.replay tracks.replayState
  refine ⟨_, _, _, ?close, ((blocks.append ends).append usage).append replay, ?ended, fits⟩
  case close =>
    simp only [Adapter.close, adapter, ChatState.conclude, endTools_started (tracks.calls.started sends),
      closing]
  case ended =>
    refine ⟨tracks.started, tracks.text.trans sends.content, tracks.reasoning.trans sends.reasoning,
      hasOpenBlock_eq_false.mpr ⟨rfl, rfl, fun index running => ?_⟩, fun call member => ?_,
      fun index tool known => ?_⟩
    · obtain ⟨tool, known, open'⟩ := toolPhase_running.mp running
      obtain ⟨before, -, rfl⟩ := Option.map_eq_some_iff.mp ((found index).symm.trans known)
      cases open'
    · rcases whole call.index with ⟨other, held, same, -, read⟩ | ⟨absent, -⟩
      · obtain rfl := List.inj_on_of_nodup_map sends.indexes held member same
        refine (found other.index).trans ?_
        show cycle.tools[other.index]?.map _ = _
        rw [read]
        rfl
      · exact absurd rfl (absent call member)
    · rcases whole index with ⟨call, held, same, -⟩ | ⟨-, -, absent⟩
      · exact ⟨call, held, same⟩
      · have none : cycle.tools[index]?.map (·.close parse) = some tool := (found index).symm.trans known
        rw [absent] at none
        cases none

/-! ### What is decoded -/

/-- A stream may end, or go on with the marker. -/
inductive Ends : List SseItem → Prop
  | eof : Ends []
  | marker (sse : SseEvent) (items : List SseItem) (marked : sse.marker = true) : Ends (.event sse :: items)

theorem read_ends {items : List SseItem} (ends : Ends items) (state : ChatState) :
    ∃ marker, adapter.read state items = adapter.close state marker := by
  cases ends with
  | eof => exact ⟨false, rfl⟩
  | marker sse items marked =>
    refine ⟨true, ?_⟩
    rw [Adapter.read, marked]
    rfl

theorem gathered_iff {call : ChatCall} {fragments : List ToolFragment} (sends : call.Sends fragments) :
    gathered fragments = call.text ↔ (call.snapshots = false → Unmistaken (pieces fragments)) := by
  rw [gathered, ← String.toList_inj, String.toList_ofList]
  cases kind : call.snapshots with
  | true =>
    obtain ⟨growing, last⟩ := sends.snapshots kind
    rw [accumulate_snapshots growing, last]
    simp
  | false =>
    rw [← sends.increments kind, accumulate_eq_flatten_iff]
    simp

theorem answers_iff {sses : List SseEvent} {ended : CycleState} {reason : FinishReason}
    (sends : Sends parse response sses) (has : Ended parse response modelCallId sses ended) :
    Answers response.sent modelCallId ⟨⟨modelCallId, ended.text, ended.reasoning, ended.replayState,
        ended.tools.toList.map fun entry => entry.2.call⟩, ended.usage, reason⟩ ↔
      ∀ call ∈ response.calls, gathered (fragmentsAt call.index (fragmentsOf sses)) = call.text := by
  constructor
  · intro answers call member
    have keyed : ∀ (index : Nat) (tool : OpenTool), ended.tools[index]? = some tool →
        tool.call.index = index := by
      intro index tool found
      obtain ⟨other, held, rfl⟩ := has.only index tool found
      rw [has.calls other held] at found
      rw [← Option.some.inj found]
      rfl
    have arrives := arrives_of_answers answers rfl keyed (List.mem_map_of_mem member)
      (has.calls call member)
    exact arrives.text call.text rfl
  · intro whole
    rw [has.text, has.reasoning]
    refine @answers_of_tools response.sent _ _ _ _ _ (fun index tool found => ?_) fun origin member => ?_
    · obtain ⟨call, held, same⟩ := has.only index tool found
      exact ⟨call.sent, List.mem_map_of_mem held, same⟩
    · obtain ⟨call, held, rfl⟩ := List.mem_map.mp member
      refine ⟨_, has.calls call held, ?_⟩
      obtain ⟨some, object⟩ := sends.objects call held
      rw [whole call held]
      exact arrives_of_close (closed_object _ some object) fun other same => Option.some.inj same

/-- **The responses that the adapter decodes.** `consume_model_cycle` accepts the events of the adapter and
gives what was sent, exactly when no increment of a call looks like a snapshot of what came before it. -/
theorem chat_decodes_iff (parse : String → Except String Value) (client : ClientChannel)
    (stays : client.closes = false) (modelCallId : String) (response : ChatResponse) (sses : List SseEvent)
    (items : List SseItem) (sends : Sends parse response sses) (ends : Ends items) :
    (∃ result, (consumeModelCycle parse client
        (adapter.stream .initial modelCallId (sses.map .event ++ items))).2 = .ok result ∧
      Answers response.sent modelCallId result) ↔
    ∀ call ∈ response.calls, call.snapshots = false →
      Unmistaken (pieces (fragmentsAt call.index (fragmentsOf sses))) := by
  obtain ⟨last, cycle, follows, tracks⟩ := tracks_events sends modelCallId
  obtain ⟨marker, closed⟩ := read_ends ends last
  obtain ⟨body, reason, ended, close, reads, has, complete, calls⟩ := tracks_end sends tracks marker
  have some : ended.tools.toList ≠ [] ↔ response.calls ≠ [] := by
    constructor
    · intro held
      obtain ⟨entry, member⟩ := List.exists_mem_of_ne_nil _ held
      obtain ⟨call, inside, -⟩ := has.only entry.1 entry.2 (Std.TreeMap.mem_toList_iff_getElem?_eq_some.mp member)
      exact List.ne_nil_of_mem inside
    · intro held
      obtain ⟨call, member⟩ := List.exists_mem_of_ne_nil _ held
      exact List.ne_nil_of_mem (Std.TreeMap.mem_toList_iff_getElem?_eq_some.mpr (has.calls call member))
  have consumed := fun result => consume_stream result stays follows (closed.trans close) reads has.started
    has.closed
  calc _ ↔ ∀ call ∈ response.calls, gathered (fragmentsAt call.index (fragmentsOf sses)) = call.text := by
        rw [← answers_iff sends has]
        constructor
        · rintro ⟨result, ok, answers⟩
          exact ((consumed result).mp ok).2.2 ▸ answers
        · intro answers
          exact ⟨_, (consumed _).mpr ⟨complete, calls.trans some.symm, rfl⟩, answers⟩
    _ ↔ _ := forall₂_congr fun call member => gathered_iff (sends.calls call member)

/-! ### Two cuts of one text -/

/-- An event with a choice. -/
def choiceEvent (delta : List (String × Value)) (finish : Value) : SseEvent :=
  ⟨"", false, .ok (.object [("choices", .array [.object [("delta", .object delta),
    ("finish_reason", finish)]])])⟩

/-- A fragment of the first call. -/
def callEvent (fields function : List (String × Value)) (text : String) : SseEvent :=
  choiceEvent [("tool_calls", .array [.object ([("index", .number (.int 0))] ++ fields ++
    [("function", .object (function ++ [("arguments", .string text)]))])])] .null

def nestedText : String := "\x7b\"a\":\x7b\x7d\x7d"

def nestedArguments : List (String × Value) := [("a", .object [])]

/-- `serde_json`, on the arguments of the sample. -/
def parseNested (text : String) : Except String Value :=
  if text = nestedText then .ok (.object nestedArguments) else .error "expected value at line 1 column 6"

def nestedResponse : ChatResponse :=
  ⟨"", "", [⟨0, "call", "read", nestedText, nestedArguments, false⟩], "tool_calls"⟩

/-- The response, with its arguments cut into `first` and `others`. -/
def nestedEvents (first : String) (others : List String) : List SseEvent :=
  callEvent [("id", .string "call")] [("name", .string "read")] first :: others.map (callEvent [] []) ++
    [choiceEvent [] (.string "tool_calls")]

theorem carries_choice (delta : List (String × Value)) (finish : Value) :
    ∃ value, Adapter.Carries "OpenAI Chat" (choiceEvent delta finish) value :=
  ⟨_, rfl, rfl, rfl⟩

theorem carries_nested (first : String) (others : List String) :
    ∀ sse ∈ nestedEvents first others, ∃ value, Adapter.Carries "OpenAI Chat" sse value := by
  intro sse member
  rcases List.mem_append.mp member with member | member
  · rcases List.mem_cons.mp member with rfl | member
    · exact carries_choice _ _
    · obtain ⟨text, -, rfl⟩ := List.mem_map.mp member
      exact carries_choice _ _
  · rw [List.mem_singleton.mp member]
    exact carries_choice _ _

theorem chunksOf_nested (first : String) (others : List String) :
    chunksOf (nestedEvents first others) =
      ⟨"", "", [⟨0, some "call", some "read", some first⟩], none⟩ ::
        others.map (fun text => ⟨"", "", [⟨0, none, none, some text⟩], none⟩) ++
        [⟨"", "", [], some "tool_calls"⟩] := by
  have later : (others.map (callEvent [] [])).filterMap chunkOf =
      others.map fun text => ⟨"", "", [⟨0, none, none, some text⟩], none⟩ := by
    rw [List.filterMap_map, ← List.filterMap_eq_map]
    rfl
  rw [chunksOf, nestedEvents, List.cons_append, List.filterMap_cons_some (by rfl), List.filterMap_append,
    later]
  rfl

theorem fragmentsOf_nested (first : String) (others : List String) :
    fragmentsOf (nestedEvents first others) =
      ⟨0, some "call", some "read", some first⟩ :: others.map fun text => ⟨0, none, none, some text⟩ := by
  rw [fragmentsOf, chunksOf_nested]
  simp only [List.flatMap_append, List.flatMap_cons, List.flatMap_map, List.flatMap_nil, List.append_nil,
    List.cons_append, List.nil_append]
  rw [← List.map_eq_flatMap]

theorem join_replicate (count : Nat) : String.join (List.replicate count "") = "" := by
  induction count with
  | zero => rfl
  | succ count ih => rw [List.replicate_succ, String.join_cons, ih, String.empty_append]

theorem fragmentsAt_nested (first : String) (others : List String) :
    fragmentsAt 0 (fragmentsOf (nestedEvents first others)) =
      ⟨0, some "call", some "read", some first⟩ :: others.map fun text => ⟨0, none, none, some text⟩ := by
  rw [fragmentsOf_nested]
  refine List.filter_eq_self.mpr fun fragment member => ?_
  rcases List.mem_cons.mp member with rfl | member
  · rfl
  · obtain ⟨text, -, rfl⟩ := List.mem_map.mp member
    rfl

theorem pieces_nested (first : String) (others : List String) :
    pieces (fragmentsAt 0 (fragmentsOf (nestedEvents first others))) = (first :: others).map String.toList := by
  rw [fragmentsAt_nested, pieces, List.filterMap_cons_some (by rfl), List.filterMap_map]
  congr 2
  exact List.filterMap_some

theorem sends_nested {first : String} {others : List String}
    (cut : ((first :: others).map String.toList).flatten = nestedText.toList) :
    Sends parseNested nestedResponse (nestedEvents first others) where
  carries := carries_nested first others
  content := by
    rw [chunksOf_nested]
    simp [String.join_append, Function.comp_def, join_replicate, nestedResponse]
  reasoning := by
    rw [chunksOf_nested]
    simp [String.join_append, Function.comp_def, join_replicate, nestedResponse]
  indexes := List.nodup_singleton _
  callIds := List.nodup_singleton _
  named call member := by
    rw [List.mem_singleton.mp member]
    decide
  objects call member := by
    rw [List.mem_singleton.mp member]
    exact ⟨by decide, rfl⟩
  owned fragment member := by
    rw [fragmentsOf_nested] at member
    refine ⟨_, List.mem_singleton_self _, ?_⟩
    rcases List.mem_cons.mp member with rfl | member
    · rfl
    · obtain ⟨text, -, rfl⟩ := List.mem_map.mp member
      rfl
  calls call member := by
    rw [List.mem_singleton.mp member]
    refine ⟨⟨_, _, fragmentsAt_nested first others, rfl, rfl, fun later inside => ?_⟩, fun _ => ?_, fun kind => ?_⟩
    · obtain ⟨text, -, rfl⟩ := List.mem_map.mp inside
      exact ⟨nofun, nofun⟩
    · exact (congrArg List.flatten (pieces_nested first others)).trans cut
    · cases kind
  finish := by
    refine ⟨_, _, chunksOf_nested first others, rfl, fun chunk member => ?_⟩
    rcases List.mem_cons.mp member with rfl | member
    · rfl
    · obtain ⟨text, -, rfl⟩ := List.mem_map.mp member
      rfl
  fits := ⟨by decide, nofun, fun _ => by decide⟩

/-- Cut before the inner object. -/
theorem chat_decodes_iff_sample :
    ∃ result, (consumeModelCycle parseNested .live (adapter.stream .initial "model-call"
        ((nestedEvents "\x7b\"a\":" ["\x7b\x7d\x7d"]).map .event ++ []))).2 = .ok result ∧
      Answers nestedResponse.sent "model-call" result :=
  (chat_decodes_iff parseNested .live rfl "model-call" nestedResponse
    (nestedEvents "\x7b\"a\":" ["\x7b\x7d\x7d"]) [] (sends_nested (by decide)) .eof).mpr
    fun call member _ => by
      rw [List.mem_singleton.mp member]
      show Unmistaken (pieces (fragmentsAt 0 _))
      rw [pieces_nested]
      exact unmistaken_concat.mpr ⟨unmistaken_concat.mpr ⟨unmistaken_nil, fun _ begun => absurd rfl begun⟩,
        fun _ _ => by decide⟩

/-- Cut behind the inner brace too: the second increment is a prefix of the first, and is dropped. -/
theorem repeated_increment_lost :
    ¬ ∀ (response : ChatResponse) (sses : List SseEvent), Sends parseNested response sses →
      ∃ result, (consumeModelCycle parseNested .live (adapter.stream .initial "model-call"
        (sses.map .event ++ []))).2 = .ok result ∧ Answers response.sent "model-call" result := by
  intro always
  obtain ⟨result, consumed, answers⟩ := always nestedResponse
    (nestedEvents "\x7b\"a\":" ["\x7b", "\x7d\x7d"]) (sends_nested (by decide))
  have lost : (consumeModelCycle parseNested .live (adapter.stream .initial "model-call"
      ((nestedEvents "\x7b\"a\":" ["\x7b", "\x7d\x7d"]).map .event ++ []))).2 =
      .ok ⟨⟨"model-call", "", "", none, [⟨0, "call", "model-call", "read", "\x7b\"a\":\x7d\x7d", .object [],
        some "read arguments are not valid JSON: expected value at line 1 column 6"⟩]⟩, none, .toolUse⟩ := by
    decide +kernel
  rw [lost] at consumed
  obtain rfl := Except.ok.inj consumed
  obtain ⟨origin, member, arrives⟩ := answers.only _ (List.mem_singleton_self _)
  rw [List.mem_singleton.mp member] at arrives
  cases arrives.argumentError

end Byok.Provider.OpenAiChat
