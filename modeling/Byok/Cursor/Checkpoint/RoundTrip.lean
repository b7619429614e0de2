/-
**A history over the wire.**

A projected history is written out message by message, stored as texts, read back under internal ids
and projected again. What comes back has every message at its place with its role and its content,
except that the image of a tool result is lost: neither `wire_content` nor `decode_tool_result` knows
it. The arguments of a call are what is read of their text.

* `projectMessages_echoed` — the second projection, by induction on the segments of the first.
* `echoPreserves_iff` — the provider sees the same history exactly when no tool result carries an
  image, and the arguments of every call are read back as they are.
-/

import Byok.Cursor.Checkpoint.Reread
import Mathlib.Data.List.Sort

namespace Byok

open Library List

/-- The projection of a message that came back. -/
def reprojected (message : ProjectedMessage) (internalId : String) : ProjectedMessage :=
  { messageId := (echoed message internalId).messageId
    role := message.role
    content := match message.content with
      | .parts parts => .parts parts
      | .assistant text thinking replayState calls =>
          .assistant text thinking replayState (renumbered calls)
      | .toolResult result => .toolResult { result with image := none, providerParts := [] } }

/-! ### One tool round -/

theorem pairwise_renumbered (calls : List ToolCallContent) :
    (renumbered calls).Pairwise fun first second => first.index ≤ second.index := by
  rw [pairwise_iff_getElem]
  intro first second _ _ before
  simp only [renumbered, getElem_mapIdx]
  exact before.le

theorem callId_renumbered (calls : List ToolCallContent) :
    (renumbered calls).map (·.callId) = calls.map (·.callId) := by
  refine ext_getElem (by simp) fun index _ _ => ?_
  simp [renumbered]

theorem normalized_renumbered {calls : List ToolCallContent}
    (names : ∀ call ∈ calls, normalizedToolCall call = call) :
    (renumbered calls).map normalizedToolCall = renumbered calls := by
  refine ext_getElem (by simp) fun index _ inside => ?_
  have short : index < calls.length := by simpa using inside
  have name := congrArg ToolCallContent.name (names calls[index] (getElem_mem short))
  simp only [normalizedToolCall] at name
  simp [renumbered, normalizedToolCall, name]

/-- A result of a round as it comes back: its message id and its content. -/
def echoedResult (entry : String × ToolResultContent) (internalId : String) :
    String × ToolResultContent :=
  (messageIdOfWire .tool entry.2.callId internalId,
    { entry.2 with image := none, providerParts := [] })

theorem callId_echoedResults {results : List (String × ToolResultContent)}
    {internalIds : List String} (lengths : internalIds.length = results.length) :
    (List.zipWith echoedResult results internalIds).map (·.2.callId) =
      results.map (·.2.callId) := by
  refine ext_getElem (by simp [lengths]) fun index _ _ => ?_
  simp [echoedResult]

theorem forall₂_echoedResults (results : List (String × ToolResultContent))
    (internalIds : List String) :
    List.Forall₂ (fun message entry => message.messageId = entry.1 ∧
        message.content = .toolResult entry.2)
      (List.zipWith echoed
        (results.map fun entry => ⟨entry.1, .tool, .toolResult entry.2⟩) internalIds)
      (List.zipWith echoedResult results internalIds) := by
  induction results generalizing internalIds with
  | nil => exact .nil
  | cons entry results ih =>
    cases internalIds with
    | nil => exact .nil
    | cons internalId internalIds => exact .cons ⟨rfl, rfl⟩ (ih internalIds)

section Round

variable {messageId text thinking internalId : String} {replayState : Option ProviderReplayState}
  {calls : List ToolCallContent} {results : List (String × ToolResultContent)}
  {internalIds : List String}

/-- The open round at the end of a tool round that came back. -/
def echoedRound (text thinking : String) (replayState : Option ProviderReplayState)
    (calls : List ToolCallContent) (results : List (String × ToolResultContent))
    (internalId : String) (internalIds : List String) : OpenRound :=
  { groupId := ⟨internalId ++ ":tool-round"⟩
    messageId := messageIdOfWire .assistant "1" internalId
    scan := ⟨text, thinking, replayState, renumbered calls,
      List.zipWith echoedResult results internalIds⟩ }

theorem run_echoedRound (messageId text thinking internalId : String)
    (replayState : Option ProviderReplayState) (called : calls ≠ [])
    (callNames : ∀ call ∈ calls, normalizedToolCall call = call)
    (answers : ∀ entry ∈ results, entry.2.callId ∈ calls.map (·.callId))
    (distinct : (results.map (·.2.callId)).Nodup)
    (lengths : internalIds.length = results.length) :
    projector.run none (List.zipWith echoed
        (roundMessages messageId text thinking replayState calls results)
        (internalId :: internalIds)) =
      .ok ([], some (echoedRound text thinking replayState calls results internalId internalIds)) := by
  have added : ToolRoundScan.empty.addPart text thinking replayState (renumbered calls) =
      .ok ⟨text, thinking, replayState, renumbered calls, []⟩ := by
    simp [ToolRoundScan.addPart, ToolRoundScan.empty, normalized_renumbered callNames]
  have content : (echoed ⟨messageId, .assistant, .assistant text thinking replayState calls⟩
      internalId).content = .assistant text thinking (some ⟨internalId ++ ":tool-round"⟩)
        replayState (renumbered calls) := by
    simp only [echoed, echoedContent, called, if_false]
  have opened : projector.step none (echoed ⟨messageId, .assistant, .assistant text thinking
      replayState calls⟩ internalId) =
        .ok ([], some (echoedRound text thinking replayState calls [] internalId [])) := by
    rw [step_none, openRound_part content (renumbered_eq_nil.not.mpr called), added]
    simp only [except_ok_bind, echoedRound, echoed, wireMessageId, zipWith_nil_left]
  have read := run_results (echoedRound text thinking replayState calls [] internalId [])
    (forall₂_echoedResults results internalIds) ?_ ?_
  · exact projector.run_cons_ok opened read
  · intro entry member
    have callId := mem_map_of_mem (f := fun entry => entry.2.callId) member
    rw [callId_echoedResults lengths] at callId
    obtain ⟨original, inside, equal⟩ := mem_map.mp callId
    rw [← equal]
    exact (callId_renumbered calls).symm ▸ answers original inside
  · simpa [echoedRound, callId_echoedResults lengths] using distinct

theorem close_echoedRound
    (answered : ∀ call ∈ calls, call.callId ∈ results.map (·.2.callId))
    (resultNames : ∀ entry ∈ results, normalizedToolResult entry.2 = entry.2)
    (lengths : internalIds.length = results.length) :
    (echoedRound text thinking replayState calls results internalId internalIds).close =
      .ok (List.zipWith reprojected
        (roundMessages messageId text thinking replayState calls results)
        (internalId :: internalIds)) := by
  have sorted : (echoedRound text thinking replayState calls results internalId
      internalIds).scan.sortedCalls = renumbered calls :=
    List.Pairwise.insertionSort_eq (pairwise_renumbered calls)
  have complete : (renumbered calls).find? (fun call => !(echoedRound text thinking replayState calls
      results internalId internalIds).scan.hasResult call.callId) = none := by
    refine find?_eq_none.mpr fun call member => ?_
    have callId : call.callId ∈ calls.map (·.callId) := by
      rw [← callId_renumbered]
      exact mem_map_of_mem member
    obtain ⟨original, inside, equal⟩ := mem_map.mp callId
    have seen := answered original inside
    rw [equal, ← callId_echoedResults lengths] at seen
    simpa using ToolRoundScan.hasResult_iff.mpr seen
  rw [OpenRound.close, ToolRoundScan.close, sorted, complete, roundMessages,
    zipWith_cons_cons]
  refine congrArg Except.ok (congrArg₂ List.cons rfl ?_)
  refine ext_getElem (by simp [echoedRound]) fun index before _ => ?_
  have short : index < results.length := by
    rw [length_map] at before
    exact (length_zipWith.trans_le (min_le_left _ _)).trans_lt' before
  have name := congrArg ToolResultContent.name (resultNames results[index] (getElem_mem short))
  simp only [normalizedToolResult] at name
  simp [echoedRound, echoedResult, reprojected, echoed, wireMessageId, normalizedToolResult, name]

end Round

/-! ### The whole history -/

theorem echoed_apart {answerable : List String} {messages : List ProjectedMessage} {round : OpenRound}
    {internalId : String} {internalIds : List String} (segmented : Segmented answerable messages)
    (named : round.groupId = ⟨internalId ++ ":tool-round"⟩) (fresh : internalId ∉ internalIds)
    (calls : ∀ callId, round.scan.hasCall callId = true → callId ∈ answerable) :
    ∀ message ∈ (List.zipWith echoed messages internalIds).head?,
      round.continues message = false := by
  intro message head
  cases messages with
  | nil => cases head
  | cons first messages =>
    cases internalIds with
    | nil => cases head
    | cons other internalIds =>
      cases head
      rcases content : first.content with parts | ⟨text, thinking, replayState, toolCalls⟩ | result
      · simp [OpenRound.continues, echoed, echoedContent, content]
      · have different : ¬ internalId = other := fun same => fresh (same ▸ mem_cons_self)
        by_cases empty : toolCalls = []
        · simp [OpenRound.continues, echoed, echoedContent, content, empty]
        · simp [OpenRound.continues, echoed, echoedContent, content, empty, named, Ne.symm different]
      · have unanswerable := segmented.head_apart first rfl result content
        simp only [OpenRound.continues, echoed, echoedContent, content]
        exact Bool.eq_false_iff.mpr fun called => unanswerable (calls _ called)

theorem toolRoundPart_echoed {message : ProjectedMessage} (plain : message.Plain)
    (internalId : String) : toolRoundPart (echoed message internalId) = none := by
  obtain ⟨messageId, role, content⟩ := message
  cases content with
  | parts parts => rfl
  | assistant text thinking replayState calls =>
    obtain rfl : calls = [] := plain.2
    rfl
  | toolResult result => rfl

theorem projectMessage_echoed {message : ProjectedMessage} (plain : message.Plain)
    (internalId : String) :
    projectMessage (echoed message internalId) = reprojected message internalId := by
  obtain ⟨messageId, role, content⟩ := message
  cases content with
  | parts parts => rfl
  | assistant text thinking replayState calls =>
    obtain rfl : calls = [] := plain.2
    rfl
  | toolResult result =>
    have normal : normalizedToolResult result = result := plain.2
    have name := congrArg ToolResultContent.name normal
    simp only [normalizedToolResult] at name
    simp [projectMessage, reprojected, echoed, echoedContent, normalizedToolResult, name]

/-- **The second projection**: message by message what came back. -/
theorem projectMessages_echoed {answerable : List String} {messages : List ProjectedMessage}
    (segmented : Segmented answerable messages) {internalIds : List String}
    (lengths : internalIds.length = messages.length) (distinct : internalIds.Nodup) :
    projectMessages (List.zipWith echoed messages internalIds) =
      .ok (List.zipWith reprojected messages internalIds) := by
  induction segmented generalizing internalIds with
  | nil => simp [projectMessages]
  | @single _ message rest plain apart more ih =>
    cases internalIds with
    | nil => cases lengths
    | cons internalId internalIds =>
      have alone := toolRoundPart_echoed plain internalId
      have projected := projectMessage_echoed plain internalId
      rw [zipWith_cons_cons, projectMessages_single alone, projected,
        ih (Nat.succ.inj lengths) (nodup_cons.mp distinct).2]
      rfl
  | @round _ messageId text thinking replayState calls results rest called callNames resultNames
      answers unique answered more ih =>
    -- the ids of the round, and those of what follows it
    cases internalIds with
    | nil => cases lengths
    | cons internalId internalIds =>
      obtain ⟨inside, behind, rfl, counted⟩ : ∃ inside behind, internalIds = inside ++ behind ∧
          inside.length = results.length :=
        ⟨internalIds.take results.length, internalIds.drop results.length,
          (take_append_drop _ _).symm, by simp [roundMessages] at lengths ⊢; omega⟩
      have remaining : behind.length = rest.length := by
        simp [roundMessages, counted] at lengths
        omega
      have aligned : (roundMessages messageId text thinking replayState calls results).length =
          (internalId :: inside).length := by
        simp [roundMessages, counted]
      obtain ⟨fresh, distinct⟩ := nodup_cons.mp distinct
      have read := run_echoedRound messageId text thinking internalId replayState called callNames answers unique
        counted
      have apart : projector.Restarts none (some (echoedRound text thinking replayState calls
          results internalId inside)) (List.zipWith echoed rest behind) := restarts_apart
        (by
          intro round equal
          obtain rfl := Option.some.inj equal
          refine echoed_apart more rfl (fun member => fresh (mem_append_right _ member)) ?_
          intro callId called
          exact (callId_renumbered calls) ▸ hasCall_iff.mp called)
      have later := ih remaining (nodup_append.mp distinct).2.1
      rw [projectMessages_eq_transduce] at later
      rw [← cons_append, zipWith_append aligned, zipWith_append aligned,
        projectMessages_eq_transduce, projector.transduce_append_ok read, apart, finish_some,
        close_echoedRound answered resultNames counted, later]
      rfl

/-! ### Over the wire -/

/-- The id is one that the wire keeps. -/
def KeptId (messageId : String) : Prop :=
  startsWith messageId "runtime:" = true ∨ startsWith messageId "request-context:" = true

/-- An opaque replay state is a signature without the prefix of an envelope. -/
def CanonicalMessage.Signed (message : CanonicalMessage) : Prop :=
  ∀ state ∈ message.replayState?, state.providerKind = "cursor_opaque" →
    ∃ signature, state.value = .string signature ∧
      startsWith signature replayEnvelopePrefix = false

/-- What every constructor of the source, `decode` included, gives a message: a message of parts
whose id the wire keeps has the origin and the event id that belong to this id, request contexts
are the user's, and an opaque replay state is signed. -/
structure CanonicalMessage.Canonical (message : CanonicalMessage) : Prop extends message.Shaped where
  kept : ∀ parts, message.content = .parts parts → KeptId message.messageId →
    message.origin = originOfWire message.role message.messageId ∧
      message.runtimeEventId = stripPrefix message.messageId "runtime:"
  request : ∀ parts, message.content = .parts parts →
    startsWith message.messageId "request-context:" = true → message.role = .user
  signed : message.Signed

namespace Codec

variable (codec : Codec)

/-- What the parameters do with the data of a content: base64 and JSON read back what they wrote. -/
def Faithful (content : ProjectedContent) : Prop :=
  match content with
  | .parts parts => ∀ mimeType data, .image mimeType data ∈ parts →
      codec.decodeBase64 (codec.encodeBase64 data) = .ok data
  | .assistant _ _ replayState _ => ∀ state ∈ replayState, state.providerKind ≠ "cursor_opaque" →
      codec.decodeBase64 (codec.encodeBase64 (codec.replayToVec state)) =
          .ok (codec.replayToVec state) ∧
        codec.replayFromSlice (codec.replayToVec state) = .ok state
  | .toolResult _ => True

/-- Every message written out with `wire_message` and read back with `decode`, under its own
internal id. -/
def overTheWire (model : String) (messages : List ProjectedMessage) (internalIds : List String) :
    Except Error (List CanonicalMessage) := do
  let wires ← messages.mapM fun message => codec.wireMessage message model
  (wires.zip internalIds).mapM fun entry => codec.decode entry.1 entry.2

variable {codec}

theorem survives {state : ProviderReplayState}
    (signed : state.providerKind = "cursor_opaque" → ∃ signature, state.value = .string signature ∧
      startsWith signature replayEnvelopePrefix = false)
    (enveloped : state.providerKind ≠ "cursor_opaque" →
      codec.decodeBase64 (codec.encodeBase64 (codec.replayToVec state)) =
          .ok (codec.replayToVec state) ∧
        codec.replayFromSlice (codec.replayToVec state) = .ok state) : codec.Survives state := by
  by_cases opaqueKind : state.providerKind = "cursor_opaque"
  · obtain ⟨signature, value, plain⟩ := signed opaqueKind
    refine ⟨signature, by simp [encodeReplayState, opaqueKind, value, Value.asStr], ?_⟩
    rw [decodeReplayState, stripPrefix_eq_none plain]
    obtain ⟨kind, content⟩ := state
    obtain rfl : kind = "cursor_opaque" := opaqueKind
    obtain rfl : content = .string signature := value
    rfl
  · obtain ⟨bytes, read⟩ := enveloped opaqueKind
    refine ⟨replayEnvelopePrefix ++ codec.encodeBase64 (codec.replayToVec state),
      by simp [encodeReplayState, opaqueKind], ?_⟩
    simp [decodeReplayState, stripPrefix_append, bytes, read]

/-- **What a history comes back as.** -/
theorem overTheWire_ok {messages : List ProjectedMessage} {internalIds : List String}
    (fits : ∀ message ∈ messages, message.RoleFits)
    (carries : ∀ message ∈ messages, codec.Carries message.content) (model : String) :
    codec.overTheWire model messages internalIds = .ok (List.zipWith echoed messages internalIds) := by
  suffices through : ∃ wires, messages.mapM (fun message => codec.wireMessage message model) =
      .ok wires ∧ ∀ internalIds, (wires.zip internalIds).mapM (fun entry =>
        codec.decode entry.1 entry.2) = .ok (List.zipWith echoed messages internalIds) by
    obtain ⟨wires, written, read⟩ := through
    rw [overTheWire, written, except_ok_bind, read]
  induction messages with
  | nil => exact ⟨[], rfl, fun _ => rfl⟩
  | cons message messages ih =>
    obtain ⟨wires, written, read⟩ := ih
      (fun other member => fits other (mem_cons_of_mem _ member))
      (fun other member => carries other (mem_cons_of_mem _ member))
    have fitting := fits message mem_cons_self
    have carried := carries message mem_cons_self
    obtain ⟨wire, wrote, -⟩ := decode_wireMessage fitting carried model ""
    refine ⟨wire :: wires, by rw [mapM_cons, wrote, written]; rfl, fun internalIds => ?_⟩
    cases internalIds with
    | nil => rfl
    | cons internalId internalIds =>
      obtain ⟨same, wroteSame, decoded⟩ := decode_wireMessage fitting carried model internalId
      obtain rfl : wire = same := Except.ok.inj (wrote.symm.trans wroteSame)
      rw [zip_cons_cons, mapM_cons, decoded, read]
      rfl

section Reread

variable {json : JsonText}

theorem roleFits_reread {message : ProjectedMessage} (fits : message.RoleFits) (readNumber : Number → Number) :
    (message.reread readNumber).RoleFits := by
  obtain ⟨messageId, role, content⟩ := message
  cases content <;> exact fits

theorem carries_reread {message : ProjectedMessage} (carries : codec.Carries message.content)
    (readNumber : Number → Number) : codec.Carries (message.reread readNumber).content := by
  obtain ⟨messageId, role, content⟩ := message
  cases content <;> exact carries

/-- **What a history comes back as through its texts**: message by message, where every text is read. -/
theorem throughBlobs_ok {messages : List ProjectedMessage} {internalIds : List String}
    (fits : ∀ message ∈ messages, message.RoleFits)
    (carries : ∀ message ∈ messages, codec.Carries message.content) (model : String)
    (lengths : internalIds.length = messages.length) {back : List CanonicalMessage} :
    codec.throughBlobs json model messages internalIds = .ok back ↔
      (∀ message ∈ messages, ∀ call ∈ message.calls, call.arguments.depth + 3 ≤ json.limit) ∧
        back = List.zipWith echoed (messages.map (·.reread json.readNumber)) internalIds := by
  let decodes (entry : Value × String) : Except Error CanonicalMessage := do
    let value ← json.readBack entry.1
    codec.decode value entry.2
  suffices through : ∃ wires, messages.mapM (fun message => codec.wireMessage message model) = .ok wires ∧
      ∀ internalIds : List String, internalIds.length = messages.length → ∀ back,
        (wires.zip internalIds).mapM decodes = .ok back ↔
          (∀ message ∈ messages, ∀ call ∈ message.calls, call.arguments.depth + 3 ≤ json.limit) ∧
            back = List.zipWith echoed (messages.map (·.reread json.readNumber)) internalIds by
    obtain ⟨wires, written, read⟩ := through
    rw [throughBlobs, written, except_ok_bind]
    exact read internalIds lengths back
  clear lengths
  induction messages with
  | nil =>
    refine ⟨[], rfl, fun internalIds _ back => ?_⟩
    constructor
    · intro ran
      exact ⟨fun _ listed => absurd listed not_mem_nil, (Except.ok.inj ran).symm⟩
    · rintro ⟨-, rfl⟩
      rfl
  | cons message messages ih =>
    obtain ⟨wires, written, read⟩ := ih
      (fun other member => fits other (mem_cons_of_mem _ member))
      (fun other member => carries other (mem_cons_of_mem _ member))
    have fitting := fits message mem_cons_self
    have carried := carries message mem_cons_self
    obtain ⟨wire, wrote, -⟩ := decode_wireMessage fitting carried model ""
    refine ⟨wire :: wires, by rw [mapM_cons, wrote, written]; rfl, fun internalIds lengths back => ?_⟩
    cases internalIds with
    | nil => cases lengths
    | cons internalId internalIds =>
      obtain ⟨other, wroteOther, decoded⟩ := decode_wireMessage (roleFits_reread fitting json.readNumber)
        (carries_reread carried json.readNumber) model internalId
      obtain rfl : wire.reread json.readNumber = other :=
        Except.ok.inj ((wireMessage_reread json.readNumber wrote).symm.trans wroteOther)
      have rest := read internalIds (Nat.succ.inj lengths)
      rw [zip_cons_cons, mapM_cons, forall_mem_cons, ← depth_wireMessage wrote]
      by_cases shallow : wire.depth ≤ json.limit
      · have first : decodes (wire, internalId) = .ok (echoed (message.reread json.readNumber) internalId) := by
          simp only [decodes, JsonText.readBack, shallow, if_true, except_ok_bind, decoded]
        rw [first, except_ok_bind, map_cons, zipWith_cons_cons]
        cases ran : (wires.zip internalIds).mapM decodes with
        | error error =>
          rw [except_error_bind]
          refine ⟨nofun, fun held => ?_⟩
          have done := (rest _).mpr ⟨held.1.2, rfl⟩
          rw [ran] at done
          cases done
        | ok others =>
          obtain ⟨deep, rfl⟩ := (rest others).mp ran
          rw [except_ok_bind]
          refine ⟨fun done => ⟨⟨shallow, deep⟩, (Except.ok.inj done).symm⟩, fun held => ?_⟩
          rw [held.2]
          rfl
      · have first : decodes (wire, internalId) = .error .json := by
          simp only [decodes, JsonText.readBack, shallow, if_false, except_error_bind]
        rw [first, except_error_bind]
        exact ⟨nofun, fun held => absurd held.1.1 shallow⟩

end Reread

end Codec

/-! ### What the provider sees -/

/-- What a content says to the provider, with the calls numbered by position. -/
def ProjectedContent.seen (content : ProjectedContent) : ProjectedContent :=
  match content with
  | .assistant text thinking replayState calls =>
      .assistant text thinking replayState (renumbered calls)
  | .toolResult result => .toolResult { result with providerParts := [] }
  | .parts items => .parts items

/-- The same role and the same content. -/
def SameMessage (first second : ProjectedMessage) : Prop :=
  first.role = second.role ∧ first.content.seen = second.content.seen

/-- A message of parts. -/
def CanonicalMessage.isParts (message : CanonicalMessage) : Bool :=
  match message.content with
  | .parts _ => true
  | _ => false

/-- A projected message of parts. -/
def ProjectedMessage.isParts (message : ProjectedMessage) : Bool :=
  match message.content with
  | .parts _ => true
  | _ => false

/-- A runtime message or a request context keeps its id, its origin and its event id. -/
def KeepsTags (message back : CanonicalMessage) : Prop :=
  KeptId message.messageId → back.messageId = message.messageId ∧ back.origin = message.origin ∧
    back.runtimeEventId = message.runtimeEventId

/-- The history comes back through its texts with the same projection, and with its runtime messages
and request contexts in place. -/
def EchoPreserves (codec : Codec) (json : JsonText) (model : String) (internalIds : List String)
    (history : List CanonicalMessage) (projected : List ProjectedMessage) : Prop :=
  ∃ back reread, codec.throughBlobs json model projected internalIds = .ok back ∧
    projectMessages back = .ok reread ∧ List.Forall₂ SameMessage projected reread ∧
    List.Forall₂ KeepsTags (history.filter (·.isParts)) (back.filter (·.isParts))

theorem renumbered_reread_iff {readNumber : Number → Number} {calls : List ToolCallContent} :
    renumbered calls = renumbered (calls.map (·.reread readNumber)) ↔
      ∀ call ∈ calls, call.arguments.reread readNumber = call.arguments := by
  have arguments (calls : List ToolCallContent) : (renumbered calls).map (·.arguments) = calls.map (·.arguments) := by
    refine ext_getElem (by simp) fun index _ _ => ?_
    simp [renumbered]
  constructor
  · intro same call listed
    have all := congrArg (List.map (·.arguments)) same
    rw [arguments, arguments, map_map] at all
    exact (map_inj_left.mp all call listed).symm
  · intro same
    congr 1
    refine (map_id' calls).symm.trans (map_congr_left fun call listed => ?_)
    rw [ToolCallContent.reread, same call listed]

theorem seen_reprojected (message : ProjectedMessage) (readNumber : Number → Number) (internalId : String) :
    SameMessage message (reprojected (message.reread readNumber) internalId) ↔
      (∀ result, message.content = .toolResult result → result.image = none) ∧
        ∀ call ∈ message.calls, call.arguments.reread readNumber = call.arguments := by
  obtain ⟨messageId, role, content⟩ := message
  cases content with
  | parts parts => simp [SameMessage, reprojected, ProjectedMessage.reread, ProjectedMessage.calls]
  | assistant text thinking replayState calls =>
    simp [SameMessage, reprojected, ProjectedContent.seen, ProjectedMessage.reread, ProjectedMessage.calls,
      renumbered_reread_iff]
  | toolResult result =>
    obtain ⟨callId, name, content, isError, image, providerParts⟩ := result
    simp [SameMessage, reprojected, ProjectedContent.seen, ProjectedMessage.reread, ProjectedMessage.calls]

theorem forall₂_reprojected {messages : List ProjectedMessage} {internalIds : List String}
    (readNumber : Number → Number) (lengths : internalIds.length = messages.length) :
    List.Forall₂ SameMessage messages
        (List.zipWith reprojected (messages.map (·.reread readNumber)) internalIds) ↔
      (∀ message ∈ messages, ∀ result, message.content = .toolResult result → result.image = none) ∧
        ∀ message ∈ messages, ∀ call ∈ message.calls, call.arguments.reread readNumber = call.arguments := by
  induction messages generalizing internalIds with
  | nil => simp
  | cons message messages ih =>
    cases internalIds with
    | nil => cases lengths
    | cons internalId internalIds =>
      rw [map_cons, zipWith_cons_cons, List.forall₂_cons, seen_reprojected, ih (Nat.succ.inj lengths),
        forall_mem_cons, forall_mem_cons, and_and_and_comm]

theorem Segmented.reread {answerable : List String} {messages : List ProjectedMessage}
    (segmented : Segmented answerable messages) (readNumber : Number → Number) :
    Segmented answerable (messages.map (·.reread readNumber)) := by
  induction segmented with
  | nil answerable => exact .nil answerable
  | @single _ message rest plain apart more ih =>
    obtain ⟨messageId, role, content⟩ := message
    cases content with
    | parts parts => exact .single plain apart ih
    | assistant text thinking replayState calls =>
      obtain rfl : calls = [] := plain.2
      exact .single plain apart ih
    | toolResult result => exact .single plain apart ih
  | @round _ messageId text thinking replayState calls results rest called callNames resultNames answers unique
      answered more ih =>
    have callIds : (calls.map (·.reread readNumber)).map (·.callId) = calls.map (·.callId) := by
      rw [map_map]
      rfl
    rw [map_append]
    have whole : (roundMessages messageId text thinking replayState calls results).map (·.reread readNumber) =
        roundMessages messageId text thinking replayState (calls.map (·.reread readNumber)) results := by
      simp [roundMessages, ProjectedMessage.reread, Function.comp_def]
    rw [whole]
    refine .round (by simpa using called) ?_ resultNames (by rwa [callIds]) unique ?_ (by rwa [callIds])
    · intro call listed
      obtain ⟨original, inside, rfl⟩ := mem_map.mp listed
      have name := congrArg ToolCallContent.name (callNames original inside)
      simp only [normalizedToolCall] at name
      simp [normalizedToolCall, ToolCallContent.reread, name]
    · intro call listed
      obtain ⟨original, inside, rfl⟩ := mem_map.mp listed
      exact answered original inside

theorem keepsTags_echoed {message : CanonicalMessage} (canonical : message.Canonical)
    (ofParts : message.isParts = true) (internalId : String) :
    KeepsTags message (echoed (projectMessage message) internalId) := by
  intro kept
  obtain ⟨messageId, role, origin, content, runtimeEventId⟩ := message
  cases content with
  | assistant => cases ofParts
  | toolResult => cases ofParts
  | parts parts =>
    obtain ⟨sameOrigin, sameEvent⟩ := canonical.kept parts rfl kept
    refine ⟨?_, sameOrigin.symm, sameEvent.symm⟩
    rcases kept with runtime | request
    · have stripped : (stripPrefix messageId "runtime:").isSome = true := by
        simp only at runtime
        simp [stripPrefix, runtime]
      simp [echoed, projectMessage, wireMessageId, messageIdOfWire, stripped]
    · have user : role = .user := canonical.request parts rfl request
      simp only at request
      simp [echoed, projectMessage, wireMessageId, messageIdOfWire, user, request]

theorem forall₂_isParts {messages : List ProjectedMessage} {internalIds : List String}
    (lengths : internalIds.length = messages.length) :
    List.Forall₂ (fun message back => ∃ internalId, back = echoed message internalId)
      (messages.filter (·.isParts))
      ((List.zipWith echoed messages internalIds).filter (·.isParts)) := by
  induction messages generalizing internalIds with
  | nil => simp
  | cons message messages ih =>
    cases internalIds with
    | nil => cases lengths
    | cons internalId internalIds =>
      have later := ih (Nat.succ.inj lengths : internalIds.length = messages.length)
      obtain ⟨messageId, role, content⟩ := message
      cases content with
      | parts parts => exact .cons ⟨internalId, rfl⟩ later
      | assistant text thinking replayState calls => exact later
      | toolResult result => exact later

section Preserved

variable {codec : Codec} {model : String} {internalIds : List String}
  {history : List CanonicalMessage} {projected : List ProjectedMessage}

theorem isParts_projected (canonical : ∀ message ∈ history, message.Canonical)
    (projects : projectMessages history = .ok projected) :
    projected.filter (·.isParts) = (history.filter (·.isParts)).map projectMessage := by
  have others := projectMessages_others (fun message member => (canonical message member).toShaped)
    projects
  have narrowed : ∀ messages : List ProjectedMessage,
      messages.filter (·.isParts) = (messages.filter (!·.isAssistant)).filter (·.isParts) := by
    intro messages
    rw [filter_filter]
    refine filter_congr fun message _ => ?_
    unfold ProjectedMessage.isParts ProjectedMessage.isAssistant
    cases message.content <;> rfl
  rw [narrowed, others, ← narrowed, filter_map]
  refine congrArg _ (filter_congr fun message _ => ?_)
  unfold Function.comp ProjectedMessage.isParts CanonicalMessage.isParts projectMessage
  cases message.content <;> rfl

theorem images_projected (canonical : ∀ message ∈ history, message.Canonical)
    (projects : projectMessages history = .ok projected) :
    (∀ message ∈ projected, ∀ result, message.content = .toolResult result → result.image = none) ↔
      ∀ message ∈ history, ∀ result, message.content = .toolResult result → result.image = none := by
  have others := projectMessages_others (fun message member => (canonical message member).toShaped)
    projects
  constructor
  · intro blank message member result content
    have inside : projectMessage message ∈ projected.filter (!·.isAssistant) := by
      rw [others, mem_filter]
      exact ⟨mem_map_of_mem member,
        by simp [projectMessage, content, ProjectedMessage.isAssistant]⟩
    exact blank _ (mem_of_mem_filter inside) (normalizedToolResult result)
      (by simp [projectMessage, content])
  · intro blank message member result content
    have inside : message ∈ (history.map projectMessage).filter (!·.isAssistant) := by
      rw [← others, mem_filter]
      exact ⟨member, by simp [content, ProjectedMessage.isAssistant]⟩
    obtain ⟨original, known, rfl⟩ := mem_map.mp (mem_of_mem_filter inside)
    unfold projectMessage at content
    cases found : original.content with
    | parts parts => simp [found] at content
    | assistant => simp [found] at content
    | toolResult stored =>
      simp only [found, ProjectedContent.toolResult.injEq] at content
      rw [← content]
      exact blank original known stored found

theorem carries_projected (signed : ∀ message ∈ history, message.Signed)
    (projects : projectMessages history = .ok projected)
    (faithful : ∀ message ∈ projected, codec.Faithful message.content) :
    ∀ message ∈ projected, codec.Carries message.content := by
  intro message member
  have read := faithful message member
  have replays := projectMessages_replayState projects message member
  obtain ⟨messageId, role, content⟩ := message
  cases content with
  | parts parts => exact read
  | assistant text thinking replayState calls =>
    intro state carried
    obtain ⟨original, known, same⟩ := replays state carried
    exact Codec.survives (signed original known state same) (read state carried)
  | toolResult result => trivial

theorem reread_projected (json : JsonText) (model : String) (canonical : ∀ message ∈ history, message.Canonical)
    (projects : projectMessages history = .ok projected)
    (faithful : ∀ message ∈ projected, codec.Faithful message.content)
    (lengths : internalIds.length = projected.length) (distinct : internalIds.Nodup) :
    (∀ back, codec.throughBlobs json model projected internalIds = .ok back ↔
      (∀ message ∈ projected, ∀ call ∈ message.calls, call.arguments.depth + 3 ≤ json.limit) ∧
        back = List.zipWith echoed (projected.map (·.reread json.readNumber)) internalIds) ∧
      projectMessages (List.zipWith echoed (projected.map (·.reread json.readNumber)) internalIds) =
        .ok (List.zipWith reprojected (projected.map (·.reread json.readNumber)) internalIds) := by
  have segmented := segmented_of_projectMessages
    (fun message member => (canonical message member).toShaped) projects
  have carries := carries_projected (fun message member => (canonical message member).signed) projects faithful
  exact ⟨fun back => Codec.throughBlobs_ok segmented.roleFits carries model lengths,
    projectMessages_echoed (segmented.reread json.readNumber) (by simpa using lengths) distinct⟩

theorem isParts_reread (readNumber : Number → Number) (messages : List ProjectedMessage) :
    (messages.map (·.reread readNumber)).filter (·.isParts) = messages.filter (·.isParts) := by
  induction messages with
  | nil => rfl
  | cons message messages ih =>
    obtain ⟨messageId, role, content⟩ := message
    cases content with
    | parts parts => exact congrArg (List.cons _) ih
    | assistant text thinking replayState calls => exact ih
    | toolResult result => exact ih

end Preserved

/-! ### Samples -/

/-- The base64 of three bytes, and no replay states. -/
def sampleCodec : Codec where
  encodeBase64 data := if data = [1, 2, 3] then "AQID" else ""
  decodeBase64 text := if text = "AQID" then .ok [1, 2, 3] else .error "Invalid symbol"
  replayToVec _ := []
  replayFromSlice _ := .error "EOF while parsing a value"

/-- A question with an image, then a round that reads a file. -/
def sampleHistory (image : Option ToolImageReference) : List CanonicalMessage :=
  [{ messageId := "runtime:question", role := .user, origin := .runtime
     content := .parts [.text "what is this?", .image "image/png" [1, 2, 3]]
     runtimeEventId := some "question" },
   { messageId := "part", role := .assistant, origin := .assistant
     content := .assistant "looking" "" (some ⟨"run:round:0"⟩) none [⟨0, "call", "Read", .null⟩]
     runtimeEventId := none },
   { messageId := "result", role := .tool, origin := .tool
     content := .toolResult ⟨"call", "Read", "text", false, image, []⟩
     runtimeEventId := none }]

/-- The projection of the sample. -/
def sampleProjected (image : Option ToolImageReference) : List ProjectedMessage :=
  [⟨"runtime:question", .user, .parts [.text "what is this?", .image "image/png" [1, 2, 3]]⟩,
   ⟨"part", .assistant, .assistant "looking" "" none [⟨0, "call", "Read", .null⟩]⟩,
   ⟨"result", .tool, .toolResult ⟨"call", "Read", "text", false, image, []⟩⟩]

theorem projects_sample (image : Option ToolImageReference) :
    projectMessages (sampleHistory image) = .ok (sampleProjected image) := by
  have read : projector.run none (sampleHistory image) = .ok ([_], some ⟨⟨"run:round:0"⟩, "part",
      ⟨"looking", "", none, [⟨0, "call", "Read", .null⟩],
        [("result", ⟨"call", "Read", "text", false, image, []⟩)]⟩⟩) := rfl
  have name : normalizeToolName "Read" = "Read" := by decide
  rw [projectMessages_eq_transduce, Transducer.transduce, read]
  simp [OpenRound.close, ToolRoundScan.close, ToolRoundScan.sortedCalls, ToolRoundScan.hasResult,
    normalizedToolResult, name, sampleProjected, projectMessage]

theorem canonical_sample (image : Option ToolImageReference) :
    ∀ message ∈ sampleHistory image, message.Canonical := by
  intro message member
  simp only [sampleHistory, mem_cons, not_mem_nil, or_false] at member
  rcases member with rfl | rfl | rfl
  · exact ⟨⟨.inr rfl, by simp⟩, fun _ _ _ => ⟨rfl, rfl⟩, fun _ _ _ => rfl,
      by simp [CanonicalMessage.Signed, CanonicalMessage.replayState?]⟩
  · exact ⟨⟨rfl, by simp⟩, by simp, by simp,
      by simp [CanonicalMessage.Signed, CanonicalMessage.replayState?]⟩
  · exact ⟨⟨rfl, by simp⟩, by simp, by simp,
      by simp [CanonicalMessage.Signed, CanonicalMessage.replayState?]⟩

theorem faithful_sample (image : Option ToolImageReference) :
    ∀ message ∈ sampleProjected image, sampleCodec.Faithful message.content := by
  intro message member
  simp only [sampleProjected, mem_cons, not_mem_nil, or_false] at member
  rcases member with rfl | rfl | rfl
  · simp [Codec.Faithful, sampleCodec]
  · simp [Codec.Faithful]
  · trivial

/-- Floats of few digits are read back as they are, and `serde_json` refuses a nesting of 128. -/
def sampleJsonText : JsonText where
  readNumber number := if number = .float 0x40499fc44f1b2f60 then .float 0x40499fc44f1b2f61 else number
  limit := 127
  room := by decide

/-- An image that a tool has read. -/
def sampleImage : ToolImageReference := ⟨"blob", "image/png", "/tmp/image.png"⟩

end Byok
