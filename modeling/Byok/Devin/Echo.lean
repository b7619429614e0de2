/-
**A Devin answer that the client sends back.**

Text, thinking and calls of an answer come back with the next request as the provider gave them. The signature that comes
back is that of the first block that has one, and it comes back with the thinking of all blocks.

* `parseMessage_echo` — what is read of the message is what the client has collected.
* `collect_answer` — what the client has collected is the answer of the provider.
* `echoed_iff` — the answer comes back exactly when its signature is paired with its own thinking.
-/

import Byok.Devin.Collect
import Byok.Provider.AnthropicStream

namespace Byok.Devin

open Library ModelEvent CycleState List
open Provider.AnthropicStream (StreamState)
open Provider.AnthropicStream.StreamState (replayOf signedThinking)

/-! ### What is read of the message -/

section Fields

variable {fields before : List Field} {number : UInt32}

theorem firstField_append (before fields : List Field) (number : UInt32) :
    firstField (before ++ fields) number = (firstField before number).or (firstField fields number) := by
  rw [firstField, find?_append]
  rfl

theorem firstField_none (absent : ∀ field ∈ fields, field.number ≠ number) : firstField fields number = none :=
  find?_eq_none.mpr fun field listed => by simpa using absent field listed

theorem number_optionalField {other : UInt32} {text : String} :
    ∀ field ∈ optionalField other text, field.number = other := by
  unfold optionalField
  split
  · exact fun field listed => absurd listed not_mem_nil
  · intro field listed
    rw [mem_singleton.mp listed]
    rfl

theorem number_calls {calls : List ShownCall} : ∀ field ∈ calls.map ShownCall.field, field.number = 6 := by
  intro field listed
  obtain ⟨call, -, rfl⟩ := mem_map.mp listed
  rfl

theorem stringField_optional {text : String} (ahead : ∀ field ∈ before, field.number ≠ number)
    (behind : ∀ field ∈ fields, field.number ≠ number) :
    stringField (before ++ (optionalField number text ++ fields)) number = .ok text := by
  rw [stringField, firstField_append, firstField_none ahead, Option.none_or, firstField_append, firstField_none behind,
    Option.or_none, optionalField]
  by_cases empty : text = ""
  · rw [if_pos empty, empty]
    rfl
  · rw [if_neg empty]
    simp [firstField, textField, bytesValue, Except.map, fromUtf8Lossy, textOfBytes_textBytes]

theorem stringField_textField {text : String} : stringField (textField number text :: fields) number = .ok text := by
  simp [stringField, firstField, textField, bytesValue, Except.map, fromUtf8Lossy, textOfBytes_textBytes]

end Fields

section Message

variable (readers : Readers) {shown : Shown} {messageId : String}

/-- The JSON value that the arguments of a call stand for. -/
def readArguments (text : String) : Value :=
  match readers.fromStr text with
  | .ok value => value
  | .error _ => .object []

/-- A call that came back. -/
def ShownCall.content (call : ShownCall) (index : Nat) : ToolCallContent :=
  ⟨index, call.callId, call.name, readArguments readers call.arguments⟩

/-- The message that came back. -/
def Shown.message (shown : Shown) (messageId : String) : ProjectedMessage :=
  ⟨messageId, .assistant, .assistant shown.text shown.thinking (replayOfSigned shown.thinking shown.signature)
    (shown.calls.zipIdx.map fun (call, index) => call.content readers index)⟩

variable {readers}

theorem parseToolCall_field {call : ShownCall} {index : Nat}
    (fits : (encodedAll [textField 1 call.callId, textField 2 call.name, textField 3 call.arguments]).length ≤ usizeMax) :
    (do parseToolCall readers (← bytesValue call.field) index) = .ok (call.content readers index) := by
  have parsed : parseFields (encodedAll [textField 1 call.callId, textField 2 call.name, textField 3 call.arguments]) =
      .ok [textField 1 call.callId, textField 2 call.name, textField 3 call.arguments] :=
    parseFrom_encoded (by simp [textField]) rfl (fitsAt_of_le (by omega))
  have value : bytesValue call.field =
      .ok (encodedAll [textField 1 call.callId, textField 2 call.name, textField 3 call.arguments]) := rfl
  have second : stringField [textField 1 call.callId, textField 2 call.name, textField 3 call.arguments] 2 =
      .ok call.name := by
    rw [← @stringField_textField [textField 3 call.arguments] 2]
    rfl
  have third : stringField [textField 1 call.callId, textField 2 call.name, textField 3 call.arguments] 3 =
      .ok call.arguments := by
    rw [← @stringField_textField [] 3]
    rfl
  rw [value, except_ok_bind, parseToolCall, parsed, except_ok_bind, third, except_ok_bind, stringField_textField,
    except_ok_bind, second]
  rfl

theorem parseToolCalls_fields {calls : List ShownCall} (start : Nat)
    (fit : ∀ call ∈ calls,
      (encodedAll [textField 1 call.callId, textField 2 call.name, textField 3 call.arguments]).length ≤ usizeMax) :
    ((calls.map ShownCall.field).zipIdx start).mapM
        (fun (field, index) => do parseToolCall readers (← bytesValue field) index) =
      .ok ((calls.zipIdx start).map fun (call, index) => call.content readers index) := by
  induction calls generalizing start with
  | nil => rfl
  | cons call calls ih =>
    rw [map_cons, zipIdx_cons, mapM_cons]
    have first := @parseToolCall_field readers call start (fit call mem_cons_self)
    have rest := ih (start + 1) fun other listed => fit other (mem_cons_of_mem _ listed)
    simp only [first, rest, except_ok_bind]
    rfl

theorem fields_eq : shown.fields messageId =
    [textField 1 messageId, varintField 2 sourceAssistant] ++ (optionalField 3 shown.text ++
      (shown.calls.map ShownCall.field ++
        (optionalField 11 shown.thinking ++ (optionalField 12 shown.signature ++ [])))) := by
  simp only [Shown.fields, append_assoc, append_nil]

theorem number_fields : ∀ field ∈ shown.fields messageId, field.number ∈ [1, 2, 3, 6, 11, 12] := by
  rw [fields_eq]
  intro field listed
  simp only [mem_append, mem_cons, not_mem_nil, or_false] at listed
  rcases listed with (rfl | rfl) | listed | listed | listed | listed
  · show (1 : UInt32) ∈ _
    decide
  · show (2 : UInt32) ∈ _
    decide
  · rw [number_optionalField field listed]
    decide
  · rw [number_calls field listed]
    decide
  · rw [number_optionalField field listed]
    decide
  · rw [number_optionalField field listed]
    decide

theorem allFields_calls : allFields (shown.fields messageId) 6 = shown.calls.map ShownCall.field := by
  have none (number : UInt32) (text : String) (other : number ≠ 6) : allFields (optionalField number text) 6 = [] :=
    filter_eq_nil_iff.mpr fun field listed => by
      rw [number_optionalField field listed]
      simpa using other
  have all : allFields (shown.calls.map ShownCall.field) 6 = shown.calls.map ShownCall.field :=
    filter_eq_self.mpr fun field listed => by simpa using number_calls field listed
  have parts (first second : List Field) : allFields (first ++ second) 6 = allFields first 6 ++ allFields second 6 :=
    filter_append _ _
  rw [fields_eq, parts, parts, parts, parts, parts, none 3 _ (by decide), none 11 _ (by decide),
    none 12 _ (by decide), all]
  simp [allFields, textField, varintField]

section Absent

variable {number other : UInt32} {text : String} {calls : List ShownCall}

theorem absent_head (first : 1 ≠ number) (second : 2 ≠ number) :
    ∀ field ∈ [textField 1 messageId, varintField 2 sourceAssistant], field.number ≠ number := by
  intro field listed
  rcases mem_cons.mp listed with rfl | listed
  · exact first
  · rw [mem_singleton.mp listed]
    exact second

theorem absent_optionalField (different : other ≠ number) : ∀ field ∈ optionalField other text, field.number ≠ number :=
  fun field listed => by rwa [number_optionalField field listed]

theorem absent_calls (different : 6 ≠ number) : ∀ field ∈ calls.map ShownCall.field, field.number ≠ number :=
  fun field listed => by rwa [number_calls field listed]

end Absent

theorem stringField_thinking : stringField (shown.fields messageId) 11 = .ok shown.thinking := by
  rw [fields_eq, ← append_assoc, ← append_assoc]
  refine stringField_optional (forall_mem_append.mpr ⟨forall_mem_append.mpr ⟨?_, ?_⟩, ?_⟩) ?_
  · exact absent_head (by decide) (by decide)
  · exact absent_optionalField (by decide)
  · exact absent_calls (by decide)
  · rw [append_nil]
    exact absent_optionalField (by decide)

theorem stringField_signature : stringField (shown.fields messageId) 12 = .ok shown.signature := by
  rw [fields_eq, ← append_assoc, ← append_assoc, ← append_assoc]
  refine stringField_optional (forall_mem_append.mpr ⟨forall_mem_append.mpr
    ⟨forall_mem_append.mpr ⟨?_, ?_⟩, ?_⟩, ?_⟩) fun field listed => absurd listed not_mem_nil
  · exact absent_head (by decide) (by decide)
  · exact absent_optionalField (by decide)
  · exact absent_calls (by decide)
  · exact absent_optionalField (by decide)

theorem stringField_text : stringField (shown.fields messageId) 3 = .ok shown.text := by
  rw [fields_eq]
  refine stringField_optional (absent_head (by decide) (by decide)) (forall_mem_append.mpr
    ⟨absent_calls (by decide), forall_mem_append.mpr ⟨absent_optionalField (by decide), ?_⟩⟩)
  rw [append_nil]
  exact absent_optionalField (by decide)

theorem assistantContent_fields (fits : (encodedAll (shown.fields messageId)).length ≤ usizeMax) :
    assistantContent readers (shown.fields messageId) shown.text = .ok (shown.message readers messageId).content := by
  have calls := @parseToolCalls_fields readers shown.calls 0 fun call listed => by
    refine Nat.le_trans (@length_encodedAll_le _ 6 _ ?_) fits
    have there : call.field ∈ allFields (shown.fields messageId) 6 := by
      rw [allFields_calls]
      exact mem_map_of_mem listed
    exact mem_of_mem_filter there
  rw [assistantContent, allFields_calls]
  simp only [calls, stringField_thinking, stringField_signature, except_ok_bind]
  rfl

/-- **What is read of the message is what the client has collected.** -/
theorem parseMessage_echo (fits : (encodedAll (shown.fields messageId)).length ≤ usizeMax) (declared : Nat) :
    parseMessage readers (encodedAll (shown.fields messageId)) declared =
      .ok (shown.message readers messageId, saturatingAdd declared 0) := by
  have numbered : ∀ field ∈ shown.fields messageId, field.number ≠ 0 := fun field listed zero => by
    have known := number_fields field listed
    rw [zero] at known
    exact absurd known (by decide)
  have parsed : parseFields (encodedAll (shown.fields messageId)) = .ok (shown.fields messageId) :=
    parseFrom_encoded numbered rfl (fitsAt_of_le (by omega))
  have identity : stringField (shown.fields messageId) 1 = .ok messageId := by
    rw [fields_eq]
    exact stringField_textField
  have source : varintAt (shown.fields messageId) 2 = .ok (some sourceAssistant) := by
    rw [fields_eq]
    simp [varintAt, firstField, textField, varintField, sourceAssistant]
  have absent (number : UInt32) (unknown : number ∉ [1, 2, 3, 6, 11, 12]) :
      ∀ field ∈ shown.fields messageId, field.number ≠ number := by
    rintro field listed rfl
    exact unknown (number_fields field listed)
  have tokens : varintAt (shown.fields messageId) 4 = .ok none := by
    rw [varintAt, firstField_none (absent 4 (by decide))]
  have images : allFields (shown.fields messageId) 10 = [] :=
    filter_eq_nil_iff.mpr fun field listed => by simpa using absent 10 (by decide) field listed
  rw [parseMessage, parsed]
  simp only [except_ok_bind, identity, source, tokens, stringField_text, images, mapM_nil]
  show (messageContent readers (shown.fields messageId) sourceAssistant shown.text []).bind _ = _
  have content : messageContent readers (shown.fields messageId) sourceAssistant shown.text [] =
      .ok (.assistant, (shown.message readers messageId).content) := by
    rw [messageContent, if_neg (by decide), if_pos (by decide), assistantContent_fields fits]
    rfl
  rw [content]
  rfl

end Message

/-! ### The next request -/

section Request

variable {readers : Readers} {bytes : List UInt8} {message : ProjectedMessage}

theorem mem_step {dialogue after : Dialogue} {field : Field} (listed : message ∈ dialogue.history)
    (stepped : dialogue.step readers field = .ok after) : message ∈ after.history := by
  obtain ⟨_, -, stepped⟩ := except_bind_eq_ok.mp stepped
  obtain ⟨⟨other, declared⟩, -, stepped⟩ := except_bind_eq_ok.mp stepped
  cases stepped
  unfold Dialogue.take
  split
  · exact listed
  · exact mem_append_left _ listed

theorem mem_steps {dialogue after : Dialogue} {fields : List Field} (listed : message ∈ dialogue.history)
    (stepped : fields.foldlM (Dialogue.step readers) dialogue = .ok after) : message ∈ after.history := by
  induction fields generalizing dialogue with
  | nil =>
    cases stepped
    exact listed
  | cons field fields ih =>
    rw [foldlM_cons] at stepped
    obtain ⟨between, first, stepped⟩ := except_bind_eq_ok.mp stepped
    exact ih (mem_step listed first) stepped

theorem mem_dialogue {dialogue after : Dialogue} {fields : List Field} {number : UInt32}
    (listed : ⟨number, .bytes bytes⟩ ∈ fields)
    (parsed : ∀ declared, ∃ total, parseMessage readers bytes declared = .ok (message, total))
    (plain : message.role ≠ .system) (stepped : fields.foldlM (Dialogue.step readers) dialogue = .ok after) :
    message ∈ after.history := by
  induction fields generalizing dialogue with
  | nil => cases listed
  | cons field fields ih =>
    rw [foldlM_cons] at stepped
    obtain ⟨between, first, rest⟩ := except_bind_eq_ok.mp stepped
    rcases mem_cons.mp listed with rfl | listed
    · refine mem_steps ?_ rest
      obtain ⟨total, read⟩ := parsed dialogue.declared
      rw [Dialogue.step, bytesValue, except_ok_bind, read] at first
      cases first
      rw [Dialogue.take, if_neg plain]
      exact mem_append_right _ (mem_singleton_self _)
    · exact ih listed rest

theorem mem_history {payload : List UInt8} {fields : List Field} {request : DevinChatRequest}
    (split : parseFields payload = .ok fields) (listed : ⟨3, .bytes bytes⟩ ∈ fields)
    (parsed : ∀ declared, ∃ total, parseMessage readers bytes declared = .ok (message, total))
    (plain : message.role ≠ .system) (read : parseChatRequest readers payload = .ok request) :
    message ∈ request.history := by
  rw [parseChatRequest, split, except_ok_bind] at read
  obtain ⟨system, -, read⟩ := except_bind_eq_ok.mp read
  obtain ⟨dialogue, stepped, read⟩ := except_bind_eq_ok.mp read
  have here : message ∈ dialogue.history :=
    mem_dialogue (mem_filter.mpr ⟨listed, decide_eq_true rfl⟩) parsed plain stepped
  have some : dialogue.history ≠ [] := ne_nil_of_mem here
  dsimp only at read
  rw [if_neg some] at read
  obtain ⟨tools, -, read⟩ := except_bind_eq_ok.mp read
  split at read
  · cases read
  · obtain ⟨model, -, read⟩ := except_bind_eq_ok.mp read
    obtain ⟨cascade, -, read⟩ := except_bind_eq_ok.mp read
    obtain ⟨prompt, -, read⟩ := except_bind_eq_ok.mp read
    obtain ⟨execution, -, read⟩ := except_bind_eq_ok.mp read
    cases read
    exact here

theorem parseChatRequest_single {total : Nat} (fits : (encodedAll [⟨3, .bytes bytes⟩]).length ≤ usizeMax)
    (parsed : parseMessage readers bytes 0 = .ok (message, total)) (plain : message.role ≠ .system) :
    ∃ request, parseChatRequest readers (encodedAll [⟨3, .bytes bytes⟩]) = .ok request ∧ request.history = [message] := by
  have split : parseFields (encodedAll [⟨3, .bytes bytes⟩]) = .ok [⟨3, .bytes bytes⟩] :=
    parseFrom_encoded (by simp) rfl (fitsAt_of_le (by omega))
  have missing (number : UInt32) (other : number ≠ 3) : firstField [⟨3, .bytes bytes⟩] number = none :=
    firstField_none fun field listed => by
      rw [mem_singleton.mp listed]
      exact other.symm
  have absent (number : UInt32) (other : number ≠ 3) : stringField [⟨3, .bytes bytes⟩] number = .ok "" := by
    rw [stringField, missing number other]
  have messages : allFields [⟨3, .bytes bytes⟩] 3 = [⟨3, .bytes bytes⟩] := by simp [allFields]
  have tools : allFields [⟨3, .bytes bytes⟩] 10 = [] := by simp [allFields]
  have stepped : Dialogue.step readers ⟨"", [], 0⟩ ⟨3, .bytes bytes⟩ = .ok ⟨"", [message], total⟩ := by
    rw [Dialogue.step, bytesValue, except_ok_bind, parsed, except_ok_bind]
    show Except.ok (Dialogue.take _ _ _) = _
    rw [Dialogue.take, if_neg plain]
    rfl
  rw [parseChatRequest, split]
  simp only [except_ok_bind, absent 2 (by decide), messages, foldlM_cons, stepped, foldlM_nil, tools,
    mapM_nil, missing 12 (by decide), absent 21 (by decide), absent 16 (by decide), absent 17 (by decide),
    absent 22 (by decide), pure_bind, Option.isSome_none, Bool.false_eq_true, if_false]
  exact ⟨_, rfl, rfl⟩

end Request

/-! ### What comes back -/

section Echo

variable (fromStr : String → Except String Value)

/-- The JSON value that the provider gave as the arguments of a call: an empty object if it gave none. -/
def givenArguments (text : String) : Value :=
  if trim text = "" then .object []
  else
    match fromStr text with
    | .ok value => value
    | .error _ => .object []

/-- The calls of an answer, in the order of their indices. -/
def givenCalls (events : List ModelEvent) (cycle : CompletedCycle) : List ToolCallContent :=
  cycle.calls.zipIdx.map fun (call, index) =>
    ⟨index, call.callId, (toolName events call.index).getD "", givenArguments fromStr call.argumentsText⟩

/-- An answer that came back: its text, its thinking and its calls, and a replay state only if it is that of the provider,
one signed thinking block with all of the thinking. -/
structure Echoes (events : List ModelEvent) (cycle : CompletedCycle) (message : ProjectedMessage) : Prop where
  role : message.role = .assistant
  content : ∃ replayState, message.content =
      .assistant cycle.text cycle.reasoning replayState (givenCalls fromStr events cycle) ∧
    ∀ state, replayState = some state → cycle.replayState = some state ∧
      ∃ signature, some state = replayOf [signedThinking cycle.reasoning signature]

/-- No signature comes with thinking that is not its own: there is no thinking, or no signature, or one signed block with
all of the thinking. -/
def Paired (thinking : String) (blocks : List Value) : Prop :=
  thinking = "" ∨ (replaySignature (replayOf blocks)).getD "" = "" ∨
    ∃ signature, blocks = [signedThinking thinking signature]

variable {fromStr} {readers : Readers}

/-- What is documented of the reader of JSON. -/
structure Readers.Documented (readers : Readers) : Prop where
  object : readers.fromStr "\x7b\x7d" = .ok (.object [])
  blank : ∀ text, trim text = "" → ∃ error, readers.fromStr text = .error error

theorem readArguments_sent (documented : readers.Documented) (text : String) :
    readArguments readers (sentArguments text) = givenArguments readers.fromStr text := by
  unfold readArguments sentArguments givenArguments
  by_cases empty : text = ""
  · rw [if_pos empty, documented.object, if_pos (by rw [empty]; decide)]
  · rw [if_neg empty]
    by_cases blank : trim text = ""
    · obtain ⟨error, failed⟩ := documented.blank text blank
      rw [if_pos blank, failed]
    · rw [if_neg blank]

theorem toList_map_eq {α β γ : Type} {first : Std.TreeMap Nat α} {second : Std.TreeMap Nat β} {f : α → γ} {g : β → γ}
    (same : ∀ index : Nat, first[index]?.map f = second[index]?.map g) :
    first.toList.map (fun entry => f entry.2) = second.toList.map fun entry => g entry.2 := by
  have equiv : (first.map fun _ => f).Equiv (second.map fun _ => g) :=
    Std.TreeMap.Equiv.of_forall_constGet?_eq fun index => by
      rw [Std.TreeMap.getElem?_map, Std.TreeMap.getElem?_map]
      exact same index
  have lists := equiv.toList_eq
  rw [Std.TreeMap.toList_map, Std.TreeMap.toList_map] at lists
  have values := congrArg (List.map Prod.snd) lists
  rwa [map_map, map_map] at values

/-- A call of the loop as it is kept for the answer. -/
def keptCall (events : List ModelEvent) (call : ToolCall) : ToolAccumulator :=
  ⟨call.callId, (toolName events call.index).getD "", call.argumentsText⟩

theorem Mirrors.calls_eq {read : List ModelEvent} {state : CycleState} {response : ResponseState} {shown : Shown}
    (mirrors : Mirrors read state response shown) :
    response.toolCalls.toList.map Prod.snd =
      (state.tools.toList.map fun entry => entry.2.call).map (keptCall read) := by
  rw [map_map]
  refine toList_map_eq (f := id) (g := fun tool : OpenTool => keptCall read tool.call) fun index => ?_
  have same := mirrors.tools index
  cases found : state.tools[index]? with
  | none =>
    cases kept : response.toolCalls[index]? with
    | none => rfl
    | some kept' =>
      rw [found, kept] at same
      cases same
  | some tool =>
    cases kept : response.toolCalls[index]? with
    | none =>
      rw [found, kept] at same
      cases same
    | some kept' =>
      rw [found, kept] at same
      obtain ⟨own, callId, arguments, name⟩ := same
      rw [Option.map_some, Option.map_some, keptCall, own, name, Option.getD_some, ← callId, ← arguments]
      rfl

variable {parse : String → Except String Value} {client : ClientChannel} {gzip : Gzip} {messageId modelUid : String}
  {provider : ProviderType} {inputTokens : Nat} {events : List (Stamp × ModelEvent)} {tools signature stop : Stamp}
  {cycle : CompletedCycle} {frames : List (List UInt8)} {blocks : List Value}

theorem foldlM_done {body : List ModelEvent} {reason : FinishReason} {last : CycleState}
    (ran : body.foldlM (handle parse client) initial = .ok last) (started : last.modelCallId.isSome)
    (closed : last.hasOpenBlock = false) :
    (body ++ [ModelEvent.done reason]).foldlM (handle parse client) initial =
      .ok { last with finish := some reason } := by
  rw [foldlM_append, ran, except_ok_bind, foldlM_cons]
  have handled : last.handle parse client (.done reason) = .ok { last with finish := some reason } := by
    simp only [handle, Option.isNone_eq_false_iff.mpr started, closed]
    rfl
  rw [handled]
  rfl

/-- **What the client collects of an answer**: text, thinking and calls of the provider, and the signature of the first
block that has one. -/
theorem collect_answer
    (accepted : (consumeModelCycle parse client ((events.map Prod.snd).map .event)).2 = .ok cycle)
    (answered : answerFrames gzip ((ResponseState.new messageId provider).setFallbackInputTokens inputTokens) events tools
      signature stop modelUid = .ok frames) :
    Shown.collect frames = ⟨cycle.text, cycle.reasoning, (replaySignature cycle.replayState).getD "",
      (cycle.calls.map (keptCall (events.map Prod.snd))).map ToolAccumulator.shown⟩ := by
  obtain ⟨body, reason, last, split, unfinished, ran, started, closed⟩ := consume_ok rfl accepted
  rw [split, loop_done unfinished ran started closed] at accepted
  obtain ⟨-, called, modelCallId, -, rfl⟩ := finished_ok.mp accepted
  obtain ⟨⟨first, response⟩, sent, answered⟩ := except_bind_eq_ok.mp answered
  obtain ⟨final, ended, answered⟩ := except_bind_eq_ok.mp answered
  cases answered
  have begins : Mirrors [] .initial
      ((ResponseState.new messageId provider).setFallbackInputTokens inputTokens) .empty := by
    unfold ResponseState.setFallbackInputTokens
    split
    · exact mirrors_initial messageId provider _
    · exact mirrors_initial messageId provider none
  have whole := @foldlM_done parse client body reason last ran started closed
  rw [← split] at whole
  have mirrors := begins.events whole sent
  rw [nil_append] at mirrors
  have calls := mirrors.calls_eq
  have agree : response.finishReason = .toolUse ↔ response.toolCalls.toList ≠ [] := by
    have is : response.finishReason = reason := mirrors.finish
    have length := congrArg List.length calls
    simp only [length_map] at length
    rw [is, called, ← length_pos_iff, ← length_pos_iff, length]
  rw [Shown.collect, foldl_append, read_finish agree ended, mirrors.calls, calls, mirrors.signature,
    mirrors.replayState, mirrors.text, mirrors.thinking]
  simp only [nil_append, String.empty_append]

theorem replaySignature_single (thinking signature : String) :
    replaySignature (replayOf [signedThinking thinking signature]) = some signature := by
  simp [replaySignature, replayOf, signedThinking, Value.get, Value.asArray, Value.asStr]

theorem replayOfSigned_iff {thinking signature : String} {state : ProviderReplayState} :
    replayOfSigned thinking signature = some state ↔
      thinking ≠ "" ∧ signature ≠ "" ∧ some state = replayOf [signedThinking thinking signature] := by
  have built : replayOf [signedThinking thinking signature] = some ⟨"anthropic", .object [("blocks", .array
      [.object [("type", .string "thinking"), ("thinking", .string thinking), ("signature", .string signature)]])]⟩ := rfl
  rw [built, replayOfSigned]
  by_cases missing : thinking = "" ∨ signature = ""
  · rw [if_pos missing]
    constructor
    · intro equal
      cases equal
    · rintro ⟨some, signed, -⟩
      exact absurd missing (not_or.mpr ⟨some, signed⟩)
  · rw [if_neg missing]
    obtain ⟨some, signed⟩ := not_or.mp missing
    exact ⟨fun equal => ⟨some, signed, equal.symm⟩, fun ⟨_, _, equal⟩ => equal.symm⟩

theorem replayOf_injective {first second : List Value} {state : ProviderReplayState} (some : replayOf first = .some state)
    (same : .some state = replayOf second) : first = second := by
  unfold replayOf at some same
  split at some
  · cases some
  · split at same
    · cases same
    · have equal := ProviderReplayState.mk.inj (Option.some.inj (some.trans same))
      injection equal.2 with fields
      injection fields with field
      injection field with _ list
      injection list

theorem cycle_parts {list : List ModelEvent}
    (accepted : (consumeModelCycle parse client (list.map .event)).2 = .ok cycle) :
    cycle.reasoning = String.join (list.filterMap thinkingPart) ∧
      list.filterMap replayState? = cycle.replayState.toList := by
  obtain ⟨body, reason, last, rfl, unfinished, ran, started, closed⟩ := consume_ok rfl accepted
  rw [loop_done unfinished ran started closed] at accepted
  obtain ⟨-, -, modelCallId, answer, rfl⟩ := finished_ok.mp accepted
  have gathers := @gathers_of_ran parse client body reason last modelCallId ran answer closed
  have thoughts : [ModelEvent.done reason].filterMap thinkingPart = [] := rfl
  have states : [ModelEvent.done reason].filterMap replayState? = [] := rfl
  rw [filterMap_append, filterMap_append, thoughts, states, append_nil, append_nil]
  exact ⟨gathers.reasoning, gathers.replayState⟩

/-- The message that comes back is the answer exactly when its signature is paired with its own thinking. -/
theorem echoes_iff (documented : readers.Documented) {list : List ModelEvent} {shown : Shown} {identity : String}
    (replayed : cycle.replayState = replayOf blocks)
    (collected : shown = ⟨cycle.text, cycle.reasoning, (replaySignature cycle.replayState).getD "",
      (cycle.calls.map (keptCall list)).map ToolAccumulator.shown⟩) :
    Echoes readers.fromStr list cycle (shown.message readers identity) ↔ Paired cycle.reasoning blocks := by
  have calls : (shown.calls.zipIdx.map fun (call, index) => call.content readers index) =
      givenCalls readers.fromStr list cycle := by
    rw [collected, givenCalls, map_map, zipIdx_map, map_map]
    refine map_congr_left fun ⟨call, index⟩ _ => ?_
    show ShownCall.content readers (keptCall list call).shown index = _
    rw [ShownCall.content]
    simp only [ToolAccumulator.shown, keptCall, readArguments_sent documented]
  have content : (shown.message readers identity).content = .assistant cycle.text cycle.reasoning
      (replayOfSigned cycle.reasoning ((replaySignature cycle.replayState).getD ""))
      (givenCalls readers.fromStr list cycle) := by
    rw [Shown.message, calls, collected]
  constructor
  · rintro ⟨-, replayState, is, own⟩
    rw [content] at is
    obtain ⟨-, -, state, -⟩ := ProjectedContent.assistant.inj is
    by_cases quiet : cycle.reasoning = ""
    · exact .inl quiet
    · by_cases unsigned : (replaySignature cycle.replayState).getD "" = ""
      · exact .inr (.inl (by rw [← replayed]; exact unsigned))
      · obtain ⟨provided, signature, single⟩ :=
          own _ (state.symm.trans (replayOfSigned_iff.mpr ⟨quiet, unsigned, rfl⟩))
        exact .inr (.inr ⟨signature, replayOf_injective (replayed.symm.trans provided) single⟩)
  · intro paired
    refine ⟨rfl, _, content, fun state is => ?_⟩
    obtain ⟨some, signed, own⟩ := replayOfSigned_iff.mp is
    rcases paired with quiet | unsigned | ⟨signature, single⟩
    · exact absurd quiet some
    · rw [replayed] at signed
      exact absurd unsigned signed
    · rw [replayed, single, replaySignature_single, Option.getD_some] at own
      rw [replayed, single]
      exact ⟨own.symm, signature, own⟩

variable {bytes : List UInt8} {identity : String}

/-- **A Devin answer comes back as the provider gave it exactly when its signature is paired with its own thinking.** -/
theorem echoed_iff (documented : readers.Documented)
    (accepted : (consumeModelCycle readers.fromStr client ((events.map Prod.snd).map .event)).2 = .ok cycle)
    (built : (events.map Prod.snd).filterMap replayState? = (replayOf blocks).toList)
    (answered : answerFrames gzip ((ResponseState.new messageId provider).setFallbackInputTokens inputTokens) events tools
      signature stop modelUid = .ok frames)
    (written : serializeFields ((Shown.collect frames).fields identity) = .ok bytes)
    (fits : (encodedAll [⟨3, .bytes bytes⟩]).length ≤ usizeMax) :
    ∃ message, (∀ declared, ∃ total, parseMessage readers bytes declared = .ok (message, total)) ∧
      (∀ payload fields request, parseFields payload = .ok fields → ⟨3, .bytes bytes⟩ ∈ fields →
        parseChatRequest readers payload = .ok request → message ∈ request.history) ∧
      (∃ request, parseChatRequest readers (encodedAll [⟨3, .bytes bytes⟩]) = .ok request ∧ request.history = [message]) ∧
      (Echoes readers.fromStr (events.map Prod.snd) cycle message ↔
        Paired (String.join ((events.map Prod.snd).filterMap thinkingPart)) blocks) := by
  have numbered : ∀ field ∈ (Shown.collect frames).fields identity, field.number ≠ 0 := fun field listed zero => by
    have known := number_fields field listed
    rw [zero] at known
    exact absurd known (by decide)
  obtain rfl := Except.ok.inj ((serializeFields_eq numbered).symm.trans written)
  have inner := (@length_encodedAll_le [⟨3, .bytes _⟩] 3 _ (mem_singleton_self _)).trans fits
  have parsed := @parseMessage_echo readers (Shown.collect frames) identity inner
  obtain ⟨reasoning, replayed⟩ := cycle_parts accepted
  have own : cycle.replayState = replayOf blocks := by
    have same := replayed.symm.trans built
    cases left : cycle.replayState <;> cases right : replayOf blocks <;> simp_all
  refine ⟨_, fun declared => ⟨_, parsed declared⟩, fun payload fields request split listed read => ?_, ?_, ?_⟩
  · exact mem_history split listed (fun declared => ⟨_, parsed declared⟩) (by rintro ⟨⟩) read
  · exact parseChatRequest_single fits (parsed 0) (by rintro ⟨⟩)
  · rw [← reasoning]
    exact echoes_iff documented own (collect_answer accepted answered)

end Echo

/-! ### Samples -/

/-- Readers of JSON that know the empty object. -/
def sampleReaders : Readers where
  decode _ := .error "not a sample"
  fromStr text := if text = "\x7b\x7d" then .ok (.object []) else .error "not a sample"
  toJson _ := ""

theorem sampleReaders_documented : sampleReaders.Documented where
  object := by decide
  blank text blank := by
    refine ⟨_, if_neg ?_⟩
    rintro rfl
    revert blank
    decide

/-- Events that all come at one time. -/
def stamped (events : List ModelEvent) : List (Stamp × ModelEvent) := events.map fun event => (⟨1, 2⟩, event)

/-- The frames that answer events. -/
def sampleFrames (events : List ModelEvent) : List (List UInt8) :=
  (answerFrames sampleGzip ((ResponseState.new "devin-response" .anthropic).setFallbackInputTokens 0) (stamped events)
    ⟨1, 2⟩ ⟨1, 2⟩ ⟨1, 2⟩ "model-a").toOption.getD []

/-- The message that comes back. -/
def sampleBytes (events : List ModelEvent) : List UInt8 :=
  (serializeFields ((Shown.collect (sampleFrames events)).fields "message")).toOption.getD []

/-- A call behind one signed thinking. -/
def signedEvents : List ModelEvent :=
  [.start "model-call", .thinkingStart, .thinkingDelta "a", .thinkingSignature "s", .thinkingEnd,
    .toolCallStart 0 "call" "read", .toolCallEnd 0] ++
    (replayOf [signedThinking "a" "s"]).toList.map .providerReplayState ++ [.done .toolUse]

theorem echoed_iff_signed :
    ∃ cycle message total,
      (consumeModelCycle sampleReaders.fromStr .absent (signedEvents.map .event)).2 = .ok cycle ∧
      parseMessage sampleReaders (sampleBytes signedEvents) 0 = .ok (message, total) ∧
      Echoes sampleReaders.fromStr signedEvents cycle message := by
  let cycle : CompletedCycle := ⟨⟨"model-call", "", "a", replayOf [signedThinking "a" "s"],
    [⟨0, "call", "model-call", "read", "", .object [], none⟩]⟩, none, .toolUse⟩
  have accepted : (consumeModelCycle sampleReaders.fromStr .absent
      (((stamped signedEvents).map Prod.snd).map .event)).2 = .ok cycle := by decide +kernel
  have answered : answerFrames sampleGzip ((ResponseState.new "devin-response" .anthropic).setFallbackInputTokens 0)
      (stamped signedEvents) ⟨1, 2⟩ ⟨1, 2⟩ ⟨1, 2⟩ "model-a" = .ok (sampleFrames signedEvents) := by decide +kernel
  obtain ⟨message, parsed, -, -, echoes⟩ := @echoed_iff sampleReaders .absent sampleGzip "devin-response" "model-a"
    .anthropic 0 (stamped signedEvents) ⟨1, 2⟩ ⟨1, 2⟩ ⟨1, 2⟩ cycle (sampleFrames signedEvents) [signedThinking "a" "s"]
    (sampleBytes signedEvents) "message" sampleReaders_documented accepted (by decide +kernel) answered
    (by decide +kernel) (by decide +kernel)
  obtain ⟨total, read⟩ := parsed 0
  exact ⟨cycle, message, total, accepted, read, echoes.mpr (.inr (.inr ⟨"s", by decide +kernel⟩))⟩

/-- The events that the Anthropic adapter makes of those of its upstream. -/
def feed (state : StreamState) : List (String × Value) → Except RunFailure (List ModelEvent)
  | [] => .ok []
  | (event, value) :: upstream => do
    let (events, state) ← state.step event value
    return events ++ (← feed state upstream)

/-- An event of a block. -/
def blockEvent (index : Int) (name : String) (value : Value) : Value :=
  .object [("index", .number (.int index)), (name, value)]

/-- A thinking block with its signature. -/
def thinkingUpstream (index : Int) (thinking signature : String) : List (String × Value) :=
  [("content_block_start", blockEvent index "content_block" (.object [("type", .string "thinking")])),
    ("content_block_delta", blockEvent index "delta"
      (.object [("type", .string "thinking_delta"), ("thinking", .string thinking)])),
    ("content_block_delta", blockEvent index "delta"
      (.object [("type", .string "signature_delta"), ("signature", .string signature)])),
    ("content_block_stop", blockEvent index "stop" .null)]

/-- The events of an answer of two signed thinking blocks. -/
def pairedEvents : List ModelEvent :=
  .start "model-call" ::
    ((feed .initial (thinkingUpstream 0 "a" "s" ++ thinkingUpstream 1 "b" "t" ++
      [("message_stop", .object [])])).toOption.getD [])

/-- Two signed thinking blocks come back as one: the thinking of both, with the signature of the first. -/
theorem two_blocks_mispaired :
    (∃ cycle, (consumeModelCycle sampleReaders.fromStr .absent (pairedEvents.map .event)).2 = .ok cycle ∧
      cycle.replayState = replayOf [signedThinking "a" "s", signedThinking "b" "t"] ∧
      ∀ message, message.content = .assistant "" "ab" (replayOf [signedThinking "ab" "s"]) [] →
        ¬ Echoes sampleReaders.fromStr pairedEvents cycle message) ∧
    parseMessage sampleReaders (sampleBytes pairedEvents) 0 =
      .ok (⟨"message", .assistant, .assistant "" "ab" (replayOf [signedThinking "ab" "s"]) []⟩, 0) := by
  refine ⟨⟨⟨⟨"model-call", "", "ab", replayOf [signedThinking "a" "s", signedThinking "b" "t"], []⟩, none, .stop⟩,
    by decide +kernel, rfl, fun message content echoes => ?_⟩, by decide +kernel⟩
  obtain ⟨replayState, is, own⟩ := echoes.content
  rw [content] at is
  obtain ⟨-, -, state, -⟩ := ProjectedContent.assistant.inj is
  have provided := (own _ state.symm).1
  revert provided
  decide

end Byok.Devin
