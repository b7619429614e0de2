/-
**The parts of a tool round and their projection.**

A round is stored as one assistant part and one result for each call, in the order in which the calls
were answered (`ToolRound.parts`). Projected, they are one assistant message with all calls sorted by
index, followed by the results (`projectMessages_parts`); between a history that does not know the
round and messages outside every round, that is all there is to see of it
(`projectMessages_history`).
-/

import Byok.Model.Segments
import Byok.Run.ToolRound

namespace Byok

open Library List

/-- A call with its result. -/
abbrev Answer := ToolCall × ToolResult

/-- The call, as a message carries it. -/
def ToolCall.content (call : ToolCall) : ToolCallContent :=
  { index := call.index, callId := call.callId, name := call.name, arguments := call.arguments }

/-- A message outside every tool round: no part of one, and no result. -/
def CanonicalMessage.Loose (message : CanonicalMessage) : Prop :=
  toolRoundPart message = none ∧ ∀ result, message.content ≠ .toolResult result

/-! ### Messages outside every round -/

section Loose

variable {message : CanonicalMessage}

theorem projectMessages_loose {messages : List CanonicalMessage}
    (loose : ∀ message ∈ messages, message.Loose) :
    projectMessages messages = .ok (messages.map projectMessage) := by
  induction messages with
  | nil => simp [projectMessages]
  | cons message rest ih =>
    have here := openRound_single (loose message mem_cons_self).1
    have rest := ih fun other member => loose other (mem_cons_of_mem _ member)
    rw [projectMessages_eq_transduce] at rest ⊢
    rw [Transducer.transduce_cons, step_none, here]
    simp only [except_ok_bind, rest]
    rfl

theorem CanonicalMessage.Loose.apart (loose : message.Loose)
    (trailing : Option (ToolRoundId × List String)) : ¬ ContinuesTrailing trailing message := by
  rintro ⟨groupId, callIds, -, ⟨text, thinking, replayState, call, calls, content⟩ |
    ⟨result, content, -⟩⟩
  · have part := loose.1
    simp [toolRoundPart, content] at part
  · exact loose.2 result content

theorem projectMessage_payload (loose : message.Loose) :
    projectMessage message.payload = projectMessage message := by
  rcases message with ⟨messageId, role, origin, content, runtimeEventId⟩
  cases content with
  | parts => rfl
  | assistant => rfl
  | toolResult result => exact absurd rfl (loose.2 result)

theorem CanonicalMessage.Loose.payload (loose : message.Loose) : message.payload.Loose := by
  rcases message with ⟨messageId, role, origin, content, runtimeEventId⟩
  cases content with
  | parts => exact loose
  | assistant => exact loose
  | toolResult result => exact absurd rfl (loose.2 result)

theorem trailingToolRound_mem {messages : List CanonicalMessage} {groupId : ToolRoundId}
    {callIds : List String} (trailing : trailingToolRound messages = some (groupId, callIds)) :
    ∃ message ∈ messages, toolRoundPart message = some groupId := by
  induction messages using List.reverseRecOn generalizing callIds with
  | nil => cases trailing
  | append_singleton messages last ih =>
    rw [trailingToolRound, foldl_append, foldl_cons, foldl_nil,
      ← trailingToolRound] at trailing
    have early : ∀ callIds, trailingToolRound messages = some (groupId, callIds) →
        ∃ message ∈ messages ++ [last], toolRoundPart message = some groupId := by
      intro callIds trailing
      obtain ⟨message, member, part⟩ := ih trailing
      exact ⟨message, mem_append_left _ member, part⟩
    have late : toolRoundPart last = some groupId →
        ∃ message ∈ messages ++ [last], toolRoundPart message = some groupId :=
      fun part => ⟨last, mem_append_right _ (mem_singleton_self _), part⟩
    unfold extendTrailing at trailing
    split at trailing
    · rename_i content found
      split at trailing <;> cases trailing <;> exact late (by simp [toolRoundPart, content])
    · rename_i content found
      cases trailing
      exact late (by simp [toolRoundPart, content])
    · split at trailing
      · cases trailing
        exact early _ (by assumption)
      · cases trailing
    · cases trailing

end Loose

/-! ### The parts of a round -/

namespace ToolRound

variable (round : ToolRound)

/-- The messages that are committed with the result of a call, the `seq`-th of its round. -/
def answerMessages (seq : Nat) (answer : Answer) : List CanonicalMessage :=
  [assistantPart round.id round.assistant seq answer.1.row,
    resultMessage round.id answer.1.row answer.2]

/-- The messages of a round, from its `seq`-th answer on. -/
def parts : Nat → List Answer → List CanonicalMessage
  | _, [] => []
  | seq, answer :: rest => round.answerMessages seq answer ++ parts (seq + 1) rest

/-- The call of an answer, as it is projected. -/
def projectedCall (answer : Answer) : ToolCallContent := normalizedToolCall answer.1.content

/-- The result of an answer: the id of its message, and its content. -/
def projectedResult (answer : Answer) : String × ToolResultContent :=
  (round.id.value ++ ":" ++ answer.1.callId ++ ":result",
    { callId := answer.1.callId
      name := normalizeToolName answer.1.name
      content := answer.2.content
      isError := answer.2.isError
      image := answer.2.image
      providerParts := [] })

/-- Calls by their index. -/
def sorted (calls : List ToolCallContent) : List ToolCallContent :=
  calls.insertionSort fun first second => first.index ≤ second.index

/-- What the provider sees of the answered calls of a round. -/
def projected : List Answer → List ProjectedMessage
  | [] => []
  | first :: rest =>
    roundMessages (round.id.value ++ ":" ++ first.1.callId ++ ":assistant") round.assistant.text
      round.assistant.thinking round.assistant.replayState
      (sorted ((first :: rest).map projectedCall)) ((first :: rest).map round.projectedResult)

/-- The locals of `project_tool_round` after some answers. -/
def scan (answers : List Answer) : ToolRoundScan :=
  { text := round.assistant.text
    thinking := round.assistant.thinking
    replayState := round.assistant.replayState
    calls := answers.map projectedCall
    results := answers.map fun answer =>
      (round.id.value ++ ":" ++ answer.1.callId ++ ":result",
        { callId := answer.1.callId, name := answer.1.name, content := answer.2.content
          isError := answer.2.isError, image := answer.2.image, providerParts := [] }) }

variable {round}

theorem parts_append (seq : Nat) (first second : List Answer) :
    round.parts seq (first ++ second) =
      round.parts seq first ++ round.parts (seq + first.length) second := by
  induction first generalizing seq with
  | nil => rfl
  | cons answer rest ih =>
    rw [cons_append, parts, parts, ih, append_assoc, length_cons]
    congr 3
    omega

theorem run_answer {seq : Nat} (later : seq ≠ 0) (messageId : String) {done : List Answer}
    {answer : Answer} (fresh : answer.1.callId ∉ done.map (·.1.callId)) :
    projector.run (some ⟨round.id, messageId, round.scan done⟩) (round.answerMessages seq answer) =
      .ok ([], some ⟨round.id, messageId, round.scan (done ++ [answer])⟩) := by
  let opened : ToolRoundScan :=
    { round.scan done with calls := (done ++ [answer]).map projectedCall }
  have part : projector.step (some ⟨round.id, messageId, round.scan done⟩)
      (assistantPart round.id round.assistant seq answer.1.row) =
        .ok ([], some ⟨round.id, messageId, opened⟩) := by
    rw [step_continue (by simp [OpenRound.continues, assistantPart])]
    cases replay : round.assistant.replayState <;>
      simp [OpenRound.absorb, assistantPart, later, ToolRoundScan.addPart, opened, scan, replay,
        projectedCall, ToolCall.content, ToolCall.row]
  have result : projector.step (some ⟨round.id, messageId, opened⟩)
      (resultMessage round.id answer.1.row answer.2) =
        .ok ([], some ⟨round.id, messageId, round.scan (done ++ [answer])⟩) := by
    have called : opened.hasCall answer.1.callId = true := by
      simp [ToolRoundScan.hasCall, opened, projectedCall, normalizedToolCall, ToolCall.content]
    have open' : opened.hasResult answer.1.callId = false := by
      simpa [ToolRoundScan.hasResult, opened, scan] using fresh
    rw [step_continue (by simpa [OpenRound.continues, resultMessage, ToolCall.row] using called)]
    simp only [OpenRound.absorb, resultMessage, ToolCall.row, ToolRoundScan.addResult, open']
    simp [opened, scan]
  have ran := projector.run_cons_ok part (projector.run_cons_ok result (projector.run_nil _))
  exact ran

theorem run_parts (messageId : String) {seq : Nat} (later : seq ≠ 0) {done todo : List Answer}
    (distinct : ((done ++ todo).map (·.1.callId)).Nodup) :
    projector.run (some ⟨round.id, messageId, round.scan done⟩) (round.parts seq todo) =
      .ok ([], some ⟨round.id, messageId, round.scan (done ++ todo)⟩) := by
  induction todo generalizing seq done with
  | nil => simp [parts]
  | cons answer rest ih =>
    have fresh : answer.1.callId ∉ done.map (·.1.callId) := by
      rw [map_append, map_cons] at distinct
      exact fun member => (nodup_append.mp distinct).2.2 _ member _ mem_cons_self rfl
    rw [parts, projector.run_append_ok (run_answer later messageId fresh),
      ih (Nat.succ_ne_zero seq) (by simpa using distinct)]
    simp

theorem run_first (answer : Answer) :
    projector.run none (round.answerMessages 0 answer) =
      .ok ([], some ⟨round.id, round.id.value ++ ":" ++ answer.1.callId ++ ":assistant",
        round.scan [answer]⟩) := by
  simp [answerMessages, Transducer.run, openRound, assistantPart, resultMessage,
    ToolRoundScan.addPart, ToolRoundScan.empty, step_continue, OpenRound.continues,
    OpenRound.absorb, ToolRoundScan.hasCall, ToolRoundScan.addResult, ToolRoundScan.hasResult, scan,
    projectedCall, ToolCall.content, ToolCall.row, normalizedToolCall]

theorem close_scan (messageId : String) (answers : List Answer) :
    (round.scan answers).close messageId =
      .ok (roundMessages messageId round.assistant.text round.assistant.thinking
        round.assistant.replayState (sorted (answers.map projectedCall))
        (answers.map round.projectedResult)) := by
  have answered : (round.scan answers).sortedCalls.find?
      (fun call => !(round.scan answers).hasResult call.callId) = none := by
    refine find?_eq_none.mpr fun call member => ?_
    obtain ⟨answer, inside, rfl⟩ := mem_map.mp (ToolRoundScan.mem_sortedCalls.mp member)
    simp only [Bool.not_eq_true', Bool.not_eq_false]
    exact ToolRoundScan.hasResult_iff.mpr
      (mem_map.mpr ⟨_, mem_map_of_mem inside, rfl⟩)
  rw [ToolRoundScan.close, answered]
  simp [roundMessages, scan, projectedResult, normalizedToolResult, Function.comp_def, sorted,
    ToolRoundScan.sortedCalls]

/-- **What a round projects to.** -/
theorem projectMessages_parts {answers : List Answer}
    (distinct : (answers.map (·.1.callId)).Nodup) :
    projectMessages (round.parts 0 answers) = .ok (round.projected answers) := by
  cases answers with
  | nil => simp [parts, projected, projectMessages]
  | cons first rest =>
    let messageId := round.id.value ++ ":" ++ first.1.callId ++ ":assistant"
    have ran : projector.run (some ⟨round.id, messageId, round.scan [first]⟩) (round.parts 1 rest) =
        .ok ([], some ⟨round.id, messageId, round.scan ([first] ++ rest)⟩) :=
      run_parts messageId Nat.one_ne_zero distinct
    rw [projectMessages_eq_transduce, parts, projector.transduce_append_ok (run_first first),
      Transducer.transduce, ran]
    simp [OpenRound.close, close_scan, projected, messageId]

theorem parts_apart {base : List CanonicalMessage}
    (fresh : ∀ message ∈ base, toolRoundPart message ≠ some round.id) (answers : List Answer) :
    ∀ message ∈ (round.parts 0 answers).head?,
      ¬ ContinuesTrailing (trailingToolRound base) message := by
  rintro message head ⟨groupId, callIds, trailing, continues⟩
  cases answers with
  | nil => cases head
  | cons first rest =>
    cases head
    rcases continues with ⟨text, thinking, replayState, call, calls, content⟩ | ⟨result, content, -⟩
    · obtain ⟨other, member, part⟩ := trailingToolRound_mem trailing
      cases content
      exact fresh other member part
    · cases content

/-- **A history, a round that it does not know, and messages outside every round.** -/
theorem projectMessages_history {base extra : List CanonicalMessage} {answers : List Answer}
    {old : List ProjectedMessage} (projects : projectMessages base = .ok old)
    (fresh : ∀ message ∈ base, toolRoundPart message ≠ some round.id)
    (distinct : (answers.map (·.1.callId)).Nodup) (loose : ∀ message ∈ extra, message.Loose) :
    projectMessages (base ++ round.parts 0 answers ++ extra) =
      .ok (old ++ round.projected answers ++ extra.map projectMessage) := by
  have apart : ∀ message ∈ extra.head?,
      ¬ ContinuesTrailing (trailingToolRound (base ++ round.parts 0 answers)) message :=
    fun message head => (loose message (mem_of_mem_head? head)).apart _
  rw [projectMessages_append apart, projectMessages_append (parts_apart fresh answers), projects,
    projectMessages_parts distinct, projectMessages_loose loose]
  rfl

theorem sorted_pairwise (calls : List ToolCallContent) :
    (sorted calls).Pairwise fun first second => first.index ≤ second.index := by
  have total : Std.Total fun first second : ToolCallContent => first.index ≤ second.index :=
    ⟨fun first second => Nat.le_total first.index second.index⟩
  have transitive : IsTrans ToolCallContent fun first second => first.index ≤ second.index :=
    ⟨fun _ _ _ => Nat.le_trans⟩
  exact pairwise_insertionSort _ calls

theorem sorted_perm {first second : List ToolCallContent} (perm : first.Perm second)
    (distinct : (second.map (·.index)).Nodup) : sorted first = sorted second := by
  have same : (sorted first).Perm (sorted second) :=
    (perm_insertionSort _ first).trans (perm.trans (perm_insertionSort _ second).symm)
  refine same.eq_of_pairwise (fun one other member inside below above => ?_)
    (sorted_pairwise first) (sorted_pairwise second)
  have mem : one ∈ second := perm.mem_iff.mp ((mem_insertionSort _).mp member)
  exact inj_on_of_nodup_map distinct mem ((mem_insertionSort _).mp inside)
    (Nat.le_antisymm below above)

end ToolRound

end Byok
