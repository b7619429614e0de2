/-
**What a client collects of a Devin answer.**

The client collects the frames of an answer in one message: the deltas of the text, of the thinking and of the signature
are appended, the calls are gathered. What it has collected follows the loop of a model call.

* `Mirrors.handled` — what an event does to the loop, it does to the answer.
* `read_finish` — what the end of the answer adds.
-/

import Byok.Devin.Response
import Byok.Devin.Request
import Byok.Devin.ModelScan
import Byok.Run.ProviderAnswers

namespace Byok.Devin

open Library ModelEvent CycleState List

/-! ### The client -/

/-- What the client reads of a text field. -/
def shownText (fields : List Field) (number : UInt32) : String :=
  match (firstField fields number).map Field.value with
  | some (.bytes value) => (textOfBytes value).getD ""
  | _ => ""

/-- A call that the client has collected. -/
structure ShownCall where
  callId : String
  name : String
  arguments : String
deriving DecidableEq

/-- The message that the client has collected. -/
structure Shown where
  text : String
  thinking : String
  signature : String
  calls : List ShownCall
deriving DecidableEq

/-- What the client reads of a call. -/
def shownCall (field : Field) : Option ShownCall :=
  match field.value with
  | .bytes value =>
    match parseFields value with
    | .ok fields => some ⟨shownText fields 1, shownText fields 2, shownText fields 3⟩
    | .error _ => none
  | _ => none

namespace Shown

def empty : Shown := ⟨"", "", "", []⟩

/-- The deltas of a frame are appended. -/
def take (shown : Shown) (fields : List Field) : Shown where
  text := shown.text ++ shownText fields 3
  thinking := shown.thinking ++ shownText fields 9
  signature := shown.signature ++ shownText fields 10
  calls := shown.calls ++ (allFields fields 6).filterMap shownCall

/-- A frame is read; the end of the stream holds no fields. -/
def read (shown : Shown) (frame : List UInt8) : Shown :=
  if declaredFlags frame = some 0 then
    match parseFields (frame.drop 5) with
    | .ok fields => shown.take fields
    | .error _ => shown
  else shown

/-- The message of an answer. -/
def collect (frames : List (List UInt8)) : Shown := frames.foldl read empty

end Shown

/-- A text field that is left out if it is empty. -/
def optionalField (number : UInt32) (text : String) : List Field := if text = "" then [] else [textField number text]

/-- A call as the client sends it back. -/
def ShownCall.field (call : ShownCall) : Field :=
  ⟨6, .bytes (encodedAll [textField 1 call.callId, textField 2 call.name, textField 3 call.arguments])⟩

/-- The message as the client sends it back. -/
def Shown.fields (shown : Shown) (messageId : String) : List Field :=
  [textField 1 messageId, varintField 2 sourceAssistant] ++ optionalField 3 shown.text ++
    shown.calls.map ShownCall.field ++ optionalField 11 shown.thinking ++ optionalField 12 shown.signature

/-! ### Frames -/

section Frames

variable {gzip : Gzip} {fields : List Field} {frames : List (List UInt8)}

theorem read_framePayload (numbered : ∀ field ∈ fields, field.number ≠ 0)
    (framed : framePayload gzip (encodedAll fields) = .ok frames) :
    (∀ shown : Shown, frames.foldl Shown.read shown = shown.take fields) ∧ (encodedAll fields).length ≤ usizeMax := by
  obtain ⟨body, written, is⟩ := except_bind_eq_ok.mp framed
  cases is
  rw [frame] at written
  split at written
  · cases written
  · rename_i small
    have within : maxBodySize ≤ usizeMax := by decide
    have fits : (encodedAll fields).length ≤ usizeMax := by omega
    simp only [Bool.false_eq_true, if_false, except_ok_bind] at written
    obtain ⟨flags, inside, -⟩ := declaredFlags_framed written
    have parsed : parseFields (encodedAll fields) = .ok fields :=
      parseFrom_encoded numbered rfl (fitsAt_of_le (by omega))
    refine ⟨fun shown => ?_, fits⟩
    rw [foldl_cons, foldl_nil, Shown.read, if_pos flags, inside, parsed]

theorem read_endFrame {body : List UInt8} (ended : endFrame = .ok body) (shown : Shown) : shown.read body = shown := by
  obtain ⟨flags, -, -⟩ := declaredFlags_framed ended
  rw [Shown.read, if_neg (by rw [flags]; decide)]

/-- The fields that every payload begins with. -/
def headFields (messageId : String) (now : Stamp) : List Field :=
  [textField 1 messageId, ⟨2, .bytes (encodedAll [⟨1, .varint now.seconds⟩, ⟨2, .varint now.nanos⟩])⟩]

theorem baseFields_eq (messageId : String) (now : Stamp) :
    baseFields messageId now = .ok (headFields messageId now) := by
  rw [baseFields, serializeFields_eq (by simp), except_ok_bind]
  rfl

theorem numbered_headFields (messageId : String) (now : Stamp) :
    ∀ field ∈ headFields messageId now, field.number ≠ 0 := by
  simp [headFields, textField]

theorem serialize_head {messageId : String} {now : Stamp} (numbered : ∀ field ∈ fields, field.number ≠ 0) :
    (do
      let head ← baseFields messageId now
      serializeFields (head ++ fields)) = .ok (encodedAll (headFields messageId now ++ fields)) := by
  rw [baseFields_eq, except_ok_bind, serializeFields_eq]
  intro field listed
  rcases mem_append.mp listed with listed | listed
  · exact numbered_headFields messageId now field listed
  · exact numbered field listed

end Frames

theorem take_head {fields : List Field} (messageId : String) (now : Stamp) (shown : Shown) :
    shown.take (headFields messageId now ++ fields) = shown.take fields := by
  simp [Shown.take, shownText, firstField, allFields, headFields, textField]

section Deltas

variable {gzip : Gzip} {frames : List (List UInt8)} {messageId : String} {now : Stamp}

theorem read_textDelta {text : String}
    (sent : (do framePayload gzip (← textDelta messageId now text)) = .ok frames) (shown : Shown) :
    frames.foldl Shown.read shown = { shown with text := shown.text ++ text } := by
  rw [textDelta, serialize_head (by simp [textField, varintField]), except_ok_bind] at sent
  rw [(read_framePayload ?_ sent).1, take_head]
  · simp [Shown.take, shownText, firstField, allFields, textField, varintField, textOfBytes_textBytes]
  · simp [headFields, textField, varintField]

theorem read_thinkingDelta {text : String}
    (sent : (do framePayload gzip (← thinkingDelta messageId now text)) = .ok frames) (shown : Shown) :
    frames.foldl Shown.read shown = { shown with thinking := shown.thinking ++ text } := by
  rw [thinkingDelta, serialize_head (by simp [textField]), except_ok_bind] at sent
  rw [(read_framePayload ?_ sent).1, take_head]
  · simp [Shown.take, shownText, firstField, allFields, textField, textOfBytes_textBytes]
  · simp [headFields, textField]

theorem read_signatureDelta {signature : String}
    (sent : (do framePayload gzip (← signatureDelta messageId now signature)) = .ok frames) (shown : Shown) :
    frames.foldl Shown.read shown = { shown with signature := shown.signature ++ signature } := by
  rw [signatureDelta, serialize_head (by simp [textField]), except_ok_bind] at sent
  rw [(read_framePayload ?_ sent).1, take_head]
  · simp [Shown.take, shownText, firstField, allFields, textField, textOfBytes_textBytes]
  · simp [headFields, textField]

/-- What is sent of the arguments of a call. -/
def sentArguments (arguments : String) : String := if arguments = "" then "\x7b\x7d" else arguments

/-- A call as the client collects it. -/
def ToolAccumulator.shown (tool : ToolAccumulator) : ShownCall := ⟨tool.callId, tool.name, sentArguments tool.arguments⟩

theorem toolField_eq (tool : ToolAccumulator) : toolField tool = .ok tool.shown.field := by
  rw [toolField, serializeFields_eq (by simp [textField]), except_ok_bind]
  rfl

theorem shownCall_field (call : ShownCall)
    (fits : (encodedAll [textField 1 call.callId, textField 2 call.name, textField 3 call.arguments]).length ≤ usizeMax) :
    shownCall call.field = some call := by
  have parsed : parseFields (encodedAll [textField 1 call.callId, textField 2 call.name, textField 3 call.arguments]) =
      .ok [textField 1 call.callId, textField 2 call.name, textField 3 call.arguments] :=
    parseFrom_encoded (by simp [textField]) rfl (fitsAt_of_le (by omega))
  simp only [shownCall, ShownCall.field, parsed]
  simp [shownText, firstField, textField, textOfBytes_textBytes]

theorem toolFields_eq (tools : List ToolAccumulator) :
    tools.mapM toolField = .ok (tools.map fun tool => tool.shown.field) := by
  induction tools with
  | nil => rfl
  | cons tool tools ih =>
    rw [mapM_cons, toolField_eq, except_ok_bind, ih]
    rfl

theorem read_toolDelta {tools : List ToolAccumulator}
    (sent : (do framePayload gzip (← toolDelta messageId now tools)) = .ok frames) (shown : Shown) :
    frames.foldl Shown.read shown = { shown with calls := shown.calls ++ tools.map ToolAccumulator.shown } := by
  have calls : ∀ field ∈ tools.map fun tool => tool.shown.field, field.number = 6 := by
    intro field listed
    obtain ⟨tool, -, rfl⟩ := mem_map.mp listed
    rfl
  have numbered : ∀ field ∈ tools.map fun tool => tool.shown.field, field.number ≠ 0 := fun field listed => by
    rw [calls field listed]
    decide
  rw [toolDelta, toolFields_eq] at sent
  simp only [except_ok_bind] at sent
  rw [serialize_head numbered, except_ok_bind] at sent
  obtain ⟨reads, fits⟩ := read_framePayload (fun field listed => by
    rcases mem_append.mp listed with listed | listed
    · exact numbered_headFields messageId now field listed
    · exact numbered field listed) sent
  have absent (number : UInt32) (other : number ≠ 6) :
      shownText (tools.map fun tool => tool.shown.field) number = "" := by
    rw [shownText, firstField, find?_eq_none.mpr fun field listed => by
      rw [calls field listed]
      simpa using other.symm]
    rfl
  have collected : (allFields (tools.map fun tool => tool.shown.field) 6).filterMap shownCall =
      tools.map ToolAccumulator.shown := by
    rw [allFields, filter_eq_self.mpr fun field listed => by simpa using calls field listed, filterMap_map]
    refine filterMap_eq_map_iff_forall_eq_some.mpr fun tool listed => ?_
    refine shownCall_field tool.shown (Nat.le_trans ?_ fits)
    exact length_encodedAll_le (mem_append_right _ (mem_map.mpr ⟨tool, listed, rfl⟩))
  rw [reads, take_head, Shown.take, absent 3 (by decide), absent 9 (by decide), absent 10 (by decide), collected]
  simp only [String.append_empty]

theorem take_other {fields : List Field} (other : ∀ field ∈ fields, field.number ∉ [3, 6, 9, 10]) (shown : Shown) :
    shown.take fields = shown := by
  have absent (number : UInt32) (delta : number ∈ [3, 6, 9, 10]) : firstField fields number = none :=
    find?_eq_none.mpr fun field listed => by
      simp only [decide_eq_true_eq]
      rintro rfl
      exact other field listed delta
  have calls : allFields fields 6 = [] := filter_eq_nil_iff.mpr fun field listed => by
    simp only [decide_eq_true_eq]
    intro same
    exact other field listed (by rw [same]; decide)
  simp [Shown.take, shownText, absent, calls]

theorem read_stopChunk {reason : FinishReason} {modelUid : String} {usage : Option Usage} {provider : ProviderType}
    (sent : (do framePayload gzip (← stopChunk messageId now reason modelUid usage provider)) = .ok frames)
    (shown : Shown) : frames.foldl Shown.read shown = shown := by
  obtain ⟨payload, made, sent⟩ := except_bind_eq_ok.mp sent
  obtain ⟨head, based, made⟩ := except_bind_eq_ok.mp made
  rw [baseFields_eq] at based
  cases based
  obtain ⟨stats, measured, made⟩ := except_bind_eq_ok.mp made
  have sevens : ∀ field ∈ stats, field.number = 7 := by
    cases usage with
    | none =>
      cases measured
      exact fun field listed => absurd listed not_mem_nil
    | some usage =>
      rw [Option.toList_some, mapM_cons] at measured
      obtain ⟨field, one, measured⟩ := except_bind_eq_ok.mp measured
      obtain ⟨_, -, rfl⟩ := except_map_eq_ok one
      cases measured
      exact fun field listed => by rw [mem_singleton.mp listed]
  rw [append_assoc, append_assoc] at made
  generalize rest : [varintField 5 (finishReasonCode reason), ⟨12, zeroDouble⟩] ++ (stats ++
    if modelUid = "" then [] else [textField 23 modelUid]) = fields at made
  have numbers : ∀ field ∈ fields, field.number ∉ [0, 3, 6, 9, 10] := by
    rw [← rest]
    intro field listed
    simp only [mem_append, mem_cons, not_mem_nil, or_false] at listed
    rcases listed with (rfl | rfl) | listed | listed
    · show (5 : UInt32) ∉ _
      decide
    · show (12 : UInt32) ∉ _
      decide
    · rw [sevens field listed]
      decide
    · split at listed
      · cases listed
      · rw [mem_singleton.mp listed]
        show (23 : UInt32) ∉ _
        decide
  have numbered : ∀ field ∈ headFields messageId now ++ fields, field.number ≠ 0 := by
    intro field listed
    rcases mem_append.mp listed with listed | listed
    · exact numbered_headFields messageId now field listed
    · exact fun zero => numbers field listed (by rw [zero]; decide)
  rw [serializeFields_eq numbered] at made
  cases made
  rw [(read_framePayload numbered sent).1, take_head, take_other]
  exact fun field listed other => numbers field listed (mem_cons_of_mem _ other)

end Deltas

/-! ### The answer follows the loop of a model call -/

/-- The name with which a call was begun. -/
def toolName (events : List ModelEvent) (index : Nat) : Option String :=
  events.findSome? fun event =>
    match event with
    | .toolCallStart other _ name => if other = index then some name else none
    | _ => none

/-- A call of the loop, and what is kept of it for the answer. -/
def SameTool (read : List ModelEvent) (index : Nat) : Option OpenTool → Option ToolAccumulator → Prop
  | none, none => toolName read index = none
  | some tool, some kept => tool.call.index = index ∧ kept.callId = tool.call.callId ∧
      kept.arguments = tool.call.argumentsText ∧ toolName read index = some kept.name
  | _, _ => False

/-- What the loop has gathered, what is kept for the answer, and what the client has collected. -/
structure Mirrors (read : List ModelEvent) (state : CycleState) (response : ResponseState) (shown : Shown) : Prop where
  text : shown.text = state.text
  thinking : shown.thinking = state.reasoning
  signature : shown.signature = ""
  calls : shown.calls = []
  replayState : response.replayState = state.replayState
  finish : response.finishReason = state.finish.getD .stop
  tools : ∀ index, SameTool read index state.tools[index]? response.toolCalls[index]?

section Follows

variable {parse : String → Except String Value} {client : ClientChannel} {gzip : Gzip} {read : List ModelEvent}
  {state next : CycleState} {response after : ResponseState} {shown : Shown} {event : ModelEvent} {now : Stamp}
  {frames : List (List UInt8)}

theorem mirrors_initial (messageId : String) (provider : ProviderType) (usage : Option Usage) :
    Mirrors [] .initial { ResponseState.new messageId provider with usage } .empty :=
  ⟨rfl, rfl, rfl, rfl, rfl, rfl, fun index => by
    have none : CycleState.initial.tools[index]? = none := by simp [CycleState.initial]
    have none' : (ResponseState.new messageId provider).toolCalls[index]? = .none := by simp [ResponseState.new]
    rw [none]
    show SameTool [] index .none (ResponseState.new messageId provider).toolCalls[index]?
    rw [none']
    rfl⟩

theorem toolName_append {index : Nat} (plain : ∀ callId name, event ≠ .toolCallStart index callId name) :
    toolName (read ++ [event]) index = toolName read index := by
  rw [toolName, findSome?_append]
  cases event with
  | toolCallStart other callId name =>
    have different : other ≠ index := fun same => plain callId name (by rw [same])
    simp [toolName, different]
  | _ => simp [toolName]

theorem SameTool.append {index : Nat} {tool : Option OpenTool} {kept : Option ToolAccumulator}
    (plain : ∀ callId name, event ≠ .toolCallStart index callId name) (same : SameTool read index tool kept) :
    SameTool (read ++ [event]) index tool kept := by
  have names := @toolName_append read event index plain
  cases tool <;> cases kept <;> simp only [SameTool, names] at same ⊢ <;> exact same

theorem ne_toolCallStart (plain : event.toolCallId = none) (index : Nat) (callId name : String) :
    event ≠ .toolCallStart index callId name := by
  rintro rfl
  cases plain

theorem Mirrors.quiet {shown' : Shown} (mirrors : Mirrors read state response shown)
    (plain : event.toolCallId = none) (tools : next.tools = state.tools)
    (kept : after.toolCalls = response.toolCalls) (replayState : after.replayState = next.replayState)
    (finish : after.finishReason = next.finish.getD .stop) (text : shown'.text = next.text)
    (thinking : shown'.thinking = next.reasoning) (signature : shown'.signature = shown.signature)
    (calls : shown'.calls = shown.calls) :
    Mirrors (read ++ [event]) next after shown' where
  text := text
  thinking := thinking
  signature := signature.trans mirrors.signature
  calls := calls.trans mirrors.calls
  replayState := replayState
  finish := finish
  tools index := by
    rw [tools, kept]
    exact (mirrors.tools index).append (ne_toolCallStart plain index)

theorem Mirrors.moves {index : Nat} {tool : OpenTool} {kept : ToolAccumulator} {sent : List RunEvent}
    (mirrors : Mirrors read state response shown)
    (plain : event.toolCallId = none) (same : SameTool read index (some tool) (some kept)) :
    Mirrors (read ++ [event]) { state with tools := state.tools.insert index tool, sent }
      { response with toolCalls := response.toolCalls.insert index kept } shown where
  text := mirrors.text
  thinking := mirrors.thinking
  signature := mirrors.signature
  calls := mirrors.calls
  replayState := mirrors.replayState
  finish := mirrors.finish
  tools other := by
    refine SameTool.append (ne_toolCallStart plain other) ?_
    simp only [Std.TreeMap.getElem?_insert, Std.compare_eq_iff_eq]
    by_cases this : index = other
    · subst this
      rw [if_pos rfl, if_pos rfl]
      exact same
    · rw [if_neg this, if_neg this]
      exact mirrors.tools other

theorem Mirrors.kept {index : Nat} {tool : OpenTool} (mirrors : Mirrors read state response shown)
    (found : state.tools[index]? = some tool) :
    ∃ kept, response.toolCalls[index]? = some kept ∧ SameTool read index (some tool) (some kept) := by
  have same := mirrors.tools index
  rw [found] at same
  cases is : response.toolCalls[index]? with
  | none =>
    rw [is] at same
    cases same
  | some kept =>
    rw [is] at same
    exact ⟨kept, rfl, same⟩

theorem mergeUsage_keeps (usage : Usage) : (response.mergeUsage usage).toolCalls = response.toolCalls ∧
    (response.mergeUsage usage).replayState = response.replayState ∧
    (response.mergeUsage usage).finishReason = response.finishReason := by
  unfold ResponseState.mergeUsage
  split
  · exact ⟨rfl, rfl, rfl⟩
  · split <;> exact ⟨rfl, rfl, rfl⟩

/-- **What an event does to the loop, it does to the answer.** -/
theorem Mirrors.handled (mirrors : Mirrors read state response shown) (handled : Handled parse client state event next)
    (sent : streamEvent gzip now response event = .ok (frames, after)) :
    Mirrors (read ++ [event]) next after (frames.foldl Shown.read shown) := by
  cases handled with
  | @start id =>
    obtain ⟨rfl, rfl⟩ := Prod.mk.inj (Except.ok.inj sent)
    refine mirrors.quiet rfl rfl ?_ ?_ ?_ mirrors.text mirrors.thinking rfl rfl
    · split <;> rfl
    · rw [← mirrors.replayState]
      split <;> rfl
    · rw [← mirrors.finish]
      split <;> rfl
  | textStart | textEnd | thinkingStart | thinkingEnd | thinkingSignature | stopSequence =>
    cases sent
    exact mirrors.quiet rfl rfl rfl mirrors.replayState mirrors.finish mirrors.text mirrors.thinking rfl rfl
  | done =>
    cases sent
    exact mirrors.quiet rfl rfl rfl mirrors.replayState rfl mirrors.text mirrors.thinking rfl rfl
  | @textDelta delta =>
    rw [streamEvent] at sent
    split at sent
    · rename_i empty
      cases sent
      subst empty
      refine mirrors.quiet rfl rfl rfl mirrors.replayState mirrors.finish ?_ mirrors.thinking rfl rfl
      rw [String.append_empty]
      exact mirrors.text
    · obtain ⟨payload, made, sent⟩ := except_bind_eq_ok.mp sent
      obtain ⟨framed, wrapped, sent⟩ := except_bind_eq_ok.mp sent
      cases sent
      have reads := read_textDelta (except_bind_eq_ok.mpr ⟨payload, made, wrapped⟩) shown
      rw [reads]
      exact mirrors.quiet rfl rfl rfl mirrors.replayState mirrors.finish (congrArg (· ++ delta) mirrors.text)
        mirrors.thinking rfl rfl
  | @thinkingDelta delta =>
    rw [streamEvent] at sent
    split at sent
    · rename_i empty
      cases sent
      subst empty
      refine mirrors.quiet rfl rfl rfl mirrors.replayState mirrors.finish mirrors.text ?_ rfl rfl
      rw [String.append_empty]
      exact mirrors.thinking
    · obtain ⟨payload, made, sent⟩ := except_bind_eq_ok.mp sent
      obtain ⟨framed, wrapped, sent⟩ := except_bind_eq_ok.mp sent
      cases sent
      have reads := read_thinkingDelta (except_bind_eq_ok.mpr ⟨payload, made, wrapped⟩) shown
      rw [reads]
      exact mirrors.quiet rfl rfl rfl mirrors.replayState mirrors.finish mirrors.text
        (congrArg (· ++ delta) mirrors.thinking) rfl rfl
  | @toolCallStart index callId name modelCallId started unused fresh =>
    cases sent
    have none := mirrors.tools index
    rw [unused] at none
    refine ⟨mirrors.text, mirrors.thinking, mirrors.signature, mirrors.calls, mirrors.replayState, mirrors.finish,
      fun other => ?_⟩
    simp only [Std.TreeMap.getElem?_insert, Std.compare_eq_iff_eq]
    by_cases this : index = other
    · subst this
      rw [if_pos rfl, if_pos rfl]
      cases kept : response.toolCalls[index]? with
      | some kept' =>
        rw [kept] at none
        cases none
      | none =>
        rw [kept] at none
        have first : toolName read index = .none := none
        refine ⟨rfl, rfl, rfl, ?_⟩
        rw [toolName, findSome?_append]
        rw [toolName] at first
        rw [first]
        simp
    · rw [if_neg this, if_neg this]
      exact (mirrors.tools other).append fun callId' name' same => this (ModelEvent.toolCallStart.inj same).1
  | @toolCallArgumentsDelta index delta tool found running =>
    obtain ⟨kept, held, own, callId, arguments, name⟩ := mirrors.kept found
    rw [streamEvent, held] at sent
    cases sent
    exact mirrors.moves rfl ⟨own, callId, congrArg (· ++ delta) arguments, name⟩
  | @toolCallEnd index tool found running =>
    cases sent
    obtain ⟨kept, held, same⟩ := mirrors.kept found
    refine ⟨mirrors.text, mirrors.thinking, mirrors.signature, mirrors.calls, mirrors.replayState, mirrors.finish,
      fun other => ?_⟩
    refine SameTool.append (ne_toolCallStart rfl other) ?_
    simp only [Std.TreeMap.getElem?_insert, Std.compare_eq_iff_eq]
    by_cases this : index = other
    · subst this
      rw [if_pos rfl, held]
      exact same
    · rw [if_neg this]
      exact mirrors.tools other
  | @providerReplayState replay first =>
    cases sent
    exact mirrors.quiet rfl rfl rfl rfl mirrors.finish mirrors.text mirrors.thinking rfl rfl
  | @usage usage first =>
    cases sent
    obtain ⟨tools, replayState, finish⟩ := @mergeUsage_keeps response usage
    exact mirrors.quiet rfl rfl tools (replayState.trans mirrors.replayState) (finish.trans mirrors.finish) mirrors.text
      mirrors.thinking rfl rfl

/-- **The answer to a stream** follows the loop up to the `Done`. -/
theorem Mirrors.events {events : List (Stamp × ModelEvent)} {last : CycleState}
    (mirrors : Mirrors read state response shown)
    (ran : (events.map Prod.snd).foldlM (handle parse client) state = .ok last)
    (sent : streamEvents gzip response events = .ok (frames, after)) :
    Mirrors (read ++ events.map Prod.snd) last after (frames.foldl Shown.read shown) := by
  induction events generalizing read state response shown frames with
  | nil =>
    cases ran
    cases sent
    rw [map_nil, append_nil]
    exact mirrors
  | cons event events ih =>
    obtain ⟨now, event⟩ := event
    rw [map_cons, foldlM_cons] at ran
    obtain ⟨next, ok, ran⟩ := except_bind_eq_ok.mp ran
    obtain ⟨⟨first, between⟩, here, sent⟩ := except_bind_eq_ok.mp sent
    obtain ⟨⟨more, last'⟩, there, sent⟩ := except_bind_eq_ok.mp sent
    cases sent
    have step := mirrors.handled (handle_ok ok) here
    have rest := ih step ran there
    rw [append_assoc] at rest
    rw [foldl_append]
    exact rest

end Follows

/-! ### The end of the answer -/

section Finish

variable {gzip : Gzip} {frames : List (List UInt8)} {tools signature stop : Stamp} {response : ResponseState}
  {modelUid : String}

theorem read_toolFrames (calls : response.finishReason = .toolUse ↔ response.toolCalls.toList ≠ [])
    (sent : toolFrames gzip tools response = .ok frames) (shown : Shown) :
    frames.foldl Shown.read shown =
      { shown with calls := shown.calls ++ (response.toolCalls.toList.map Prod.snd).map ToolAccumulator.shown } := by
  unfold toolFrames at sent
  dsimp only at sent
  split at sent
  · exact read_toolDelta sent shown
  · rename_i none
    have empty : response.toolCalls.toList = [] := by
      by_contra some
      exact none ⟨calls.mpr some, fun nothing => some (map_eq_nil_iff.mp nothing)⟩
    cases sent
    rw [empty, map_nil, map_nil, append_nil]
    rfl

theorem read_signatureFrames (sent : signatureFrames gzip signature response = .ok frames) (shown : Shown) :
    frames.foldl Shown.read shown =
      { shown with signature := shown.signature ++ (replaySignature response.replayState).getD "" } := by
  unfold signatureFrames at sent
  split at sent
  · rename_i found
    rw [read_signatureDelta sent shown, found, Option.getD_some]
  · rename_i none
    cases sent
    rw [none, Option.getD_none, String.append_empty]
    rfl

/-- **What the end of the answer adds**: the calls, and the signature of the first block that has one. -/
theorem read_finish (calls : response.finishReason = .toolUse ↔ response.toolCalls.toList ≠ [])
    (sent : finish gzip tools signature stop response modelUid = .ok frames) (shown : Shown) :
    frames.foldl Shown.read shown =
      { shown with
        calls := shown.calls ++ (response.toolCalls.toList.map Prod.snd).map ToolAccumulator.shown
        signature := shown.signature ++ (replaySignature response.replayState).getD "" } := by
  obtain ⟨called, first, sent⟩ := except_bind_eq_ok.mp sent
  obtain ⟨signed, second, sent⟩ := except_bind_eq_ok.mp sent
  obtain ⟨chunk, made, sent⟩ := except_bind_eq_ok.mp sent
  obtain ⟨stopped, third, sent⟩ := except_bind_eq_ok.mp sent
  obtain ⟨last, ended, sent⟩ := except_bind_eq_ok.mp sent
  cases sent
  rw [foldl_append, foldl_append, foldl_append, foldl_cons, foldl_nil, read_endFrame ended,
    read_stopChunk (except_bind_eq_ok.mpr ⟨chunk, made, third⟩), read_toolFrames calls first, read_signatureFrames second]

end Finish

end Byok.Devin
