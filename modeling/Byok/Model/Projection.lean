/-
**Projection: the provider-visible history of a list of canonical messages.**

`server/src/model/projection.rs`. `project_messages` walks the list with an index; at an assistant
part that carries tool calls it hands over to `project_tool_round`, which gathers the parts of one
tool round and the results of their calls with two nested loops. The index into the slice is kept
here as the suffix that is still to be read.

* `takeResults`, `takeParts` — the inner and the outer loop.
* `projectToolRound`, `projectMessages` — the two functions of the source.
-/

import Byok.Library.Transducer
import Byok.Model.Message
import Mathlib.Data.List.Sort

namespace Byok

open Library

inductive ProjectedContent where
  | parts (parts : List ContentPart)
  | assistant (text thinking : String) (replayState : Option ProviderReplayState)
      (calls : List ToolCallContent)
  | toolResult (result : ToolResultContent)
deriving DecidableEq, Repr

structure ProjectedMessage where
  messageId : String
  role : Role
  content : ProjectedContent
deriving DecidableEq, Repr

def normalizedToolCall (call : ToolCallContent) : ToolCallContent :=
  { call with name := normalizeToolName call.name }

def normalizedToolResult (result : ToolResultContent) : ToolResultContent :=
  { result with name := normalizeToolName result.name }

/-- `project_message`: a message outside every tool round. -/
def projectMessage (message : CanonicalMessage) : ProjectedMessage :=
  { messageId := message.messageId
    role := message.role
    content := match message.content with
      | .parts parts => .parts parts
      | .assistant text thinking _ replayState toolCalls =>
          .assistant text thinking replayState (toolCalls.map normalizedToolCall)
      | .toolResult result => .toolResult (normalizedToolResult result) }

/-! ### One tool round -/

/-- The locals of `project_tool_round`. The set `result_ids` is the call ids of `results`. -/
structure ToolRoundScan where
  text : String
  thinking : String
  replayState : Option ProviderReplayState
  calls : List ToolCallContent
  results : List (String × ToolResultContent)
deriving DecidableEq, Repr

namespace ToolRoundScan

/-- The locals before the first part is read. -/
def empty : ToolRoundScan := ⟨"", "", none, [], []⟩

/-- `calls.iter().any(|call| call.call_id == call_id)`. -/
def hasCall (scan : ToolRoundScan) (callId : String) : Bool :=
  scan.calls.any fun call => call.callId == callId

/-- `result_ids.contains(call_id)`. -/
def hasResult (scan : ToolRoundScan) (callId : String) : Bool :=
  scan.results.any fun entry => entry.2.callId == callId

/-- The body of the outer loop up to the inner loop: one assistant part. -/
def addPart (scan : ToolRoundScan) (text thinking : String)
    (replayState : Option ProviderReplayState) (toolCalls : List ToolCallContent) :
    Except Error ToolRoundScan :=
  if scan.replayState.isSome ∧ replayState.isSome then
    .error (.protocol "tool round repeats provider replay state")
  else
    .ok { scan with
      text := scan.text ++ text
      thinking := scan.thinking ++ thinking
      replayState := if scan.replayState.isNone then replayState else scan.replayState
      calls := scan.calls ++ toolCalls.map normalizedToolCall }

/-- The body of the inner loop: one result of a call of the round. -/
def addResult (scan : ToolRoundScan) (messageId : String) (result : ToolResultContent) :
    Except Error ToolRoundScan :=
  if scan.hasResult result.callId then
    .error (.protocol ("duplicate tool result call_id: " ++ result.callId))
  else
    .ok { scan with results := scan.results ++ [(messageId, result)] }

/-- `calls.sort_by_key(|call| call.index)`, a stable sort. -/
def sortedCalls (scan : ToolRoundScan) : List ToolCallContent :=
  scan.calls.insertionSort fun first second => first.index ≤ second.index

/-- The end of `project_tool_round`: sort the calls, require a result for each of them, and put the
assistant message before the results. -/
def close (scan : ToolRoundScan) (messageId : String) : Except Error (List ProjectedMessage) :=
  match scan.sortedCalls.find? fun call => !scan.hasResult call.callId with
  | some call => .error (.protocol ("assistant tool call has no result call_id: " ++ call.callId))
  | none => .ok <|
      { messageId
        role := .assistant
        content := .assistant scan.text scan.thinking scan.replayState scan.sortedCalls } ::
      scan.results.map fun entry =>
        { messageId := entry.1
          role := .tool
          content := .toolResult (normalizedToolResult entry.2) }

end ToolRoundScan

/-- The inner loop: the results that directly follow a part and answer a call of the round. -/
def takeResults (scan : ToolRoundScan) :
    List CanonicalMessage → Except Error (ToolRoundScan × List CanonicalMessage)
  | [] => .ok (scan, [])
  | message :: rest =>
    match message.content with
    | .toolResult result =>
        if scan.hasCall result.callId then
          match scan.addResult message.messageId result with
          | .error error => .error error
          | .ok scan => takeResults scan rest
        else .ok (scan, message :: rest)
    | _ => .ok (scan, message :: rest)

theorem takeResults_answer {scan : ToolRoundScan} {message : CanonicalMessage}
    {result : ToolResultContent} (content : message.content = .toolResult result)
    (called : scan.hasCall result.callId = true) (rest : List CanonicalMessage) :
    takeResults scan (message :: rest) = (do
      let scan ← scan.addResult message.messageId result
      takeResults scan rest) := by
  simp only [takeResults, content, called, if_true]
  rcases scan.addResult message.messageId result with error | next <;> rfl

theorem takeResults_other {scan : ToolRoundScan} {message : CanonicalMessage}
    (other : ∀ result, message.content = .toolResult result → scan.hasCall result.callId = false)
    (rest : List CanonicalMessage) :
    takeResults scan (message :: rest) = .ok (scan, message :: rest) := by
  rw [takeResults]
  split
  · rename_i result content
    rw [other result content]
    rfl
  · rfl

theorem takeResults_length {scan next : ToolRoundScan} {messages rest : List CanonicalMessage}
    (taken : takeResults scan messages = .ok (next, rest)) : rest.length ≤ messages.length := by
  induction messages generalizing scan with
  | nil => simp_all [takeResults]
  | cons message tail ih =>
    rw [takeResults] at taken
    split at taken
    · split at taken
      · split at taken
        · cases taken
        · exact (ih taken).trans (Nat.le_succ _)
      · cases taken; exact le_rfl
    · cases taken; exact le_rfl

/-- The outer loop: the parts of round `groupId`, each followed by its results. -/
def takeParts (groupId : ToolRoundId) (scan : ToolRoundScan) (messages : List CanonicalMessage) :
    Except Error (ToolRoundScan × List CanonicalMessage) :=
  match messages with
  | [] => .ok (scan, [])
  | message :: rest =>
    match message.content with
    | .assistant text thinking (some candidate) replayState toolCalls =>
        if candidate = groupId ∧ toolCalls ≠ [] then
          match scan.addPart text thinking replayState toolCalls with
          | .error error => .error error
          | .ok scan =>
            match _taken : takeResults scan rest with
            | .error error => .error error
            | .ok (scan, rest) => takeParts groupId scan rest
        else .ok (scan, message :: rest)
    | _ => .ok (scan, message :: rest)
termination_by messages.length
decreasing_by
  simp only [List.length_cons]
  exact Nat.lt_succ_of_le (takeResults_length _taken)

theorem takeParts_part {groupId : ToolRoundId} {scan : ToolRoundScan} {message : CanonicalMessage}
    {text thinking : String} {replayState : Option ProviderReplayState}
    {toolCalls : List ToolCallContent}
    (content : message.content = .assistant text thinking (some groupId) replayState toolCalls)
    (calls : toolCalls ≠ []) (rest : List CanonicalMessage) :
    takeParts groupId scan (message :: rest) = (do
      let scan ← scan.addPart text thinking replayState toolCalls
      let (scan, rest) ← takeResults scan rest
      takeParts groupId scan rest) := by
  rw [takeParts, content]
  simp only [calls, ne_eq, not_false_eq_true, and_self, if_true]
  rcases scan.addPart text thinking replayState toolCalls with error | part
  · rfl
  · simp only [except_ok_bind]
    split
    · rename_i failed
      rw [failed]
      rfl
    · rename_i taken
      rw [taken]
      rfl

theorem takeParts_other {groupId : ToolRoundId} {scan : ToolRoundScan} {message : CanonicalMessage}
    (other : ∀ text thinking replayState toolCalls,
      message.content = .assistant text thinking (some groupId) replayState toolCalls →
      toolCalls = []) (rest : List CanonicalMessage) :
    takeParts groupId scan (message :: rest) = .ok (scan, message :: rest) := by
  rw [takeParts]
  split
  · rename_i text thinking candidate replayState toolCalls content
    split
    · rename_i same
      obtain ⟨rfl, calls⟩ := same
      exact absurd (other _ _ _ _ content) calls
    · rfl
  · rfl

theorem takeParts_length {groupId : ToolRoundId} {scan next : ToolRoundScan}
    {messages rest : List CanonicalMessage}
    (taken : takeParts groupId scan messages = .ok (next, rest)) :
    rest.length ≤ messages.length := by
  induction scan, messages using takeParts.induct groupId with
  | case1 scan => simp_all [takeParts]
  | case2 scan message tail text thinking candidate replayState toolCalls content same error
      failed =>
    obtain ⟨rfl, calls⟩ := same
    simp [takeParts_part content calls, failed] at taken
  | case3 scan message tail text thinking candidate replayState toolCalls content same part added
      error failed =>
    obtain ⟨rfl, calls⟩ := same
    simp [takeParts_part content calls, added, failed] at taken
  | case4 scan message tail text thinking candidate replayState toolCalls content same part added
      after remaining results ih =>
    obtain ⟨rfl, calls⟩ := same
    rw [takeParts_part content calls, added, except_ok_bind, results, except_ok_bind] at taken
    exact (ih taken).trans ((takeResults_length results).trans (Nat.le_succ _))
  | case5 scan message tail text thinking candidate replayState toolCalls content other =>
    simp only [takeParts, content, other, if_false, Except.ok.injEq, Prod.mk.injEq] at taken
    exact le_of_eq (congrArg List.length taken.2.symm)
  | case6 scan message tail other =>
    rw [takeParts_other (fun _ _ _ _ content => absurd content (other _ _ _ _ _))] at taken
    cases taken
    exact le_rfl

/-- `Some(group_id)` at an assistant part that opens a tool round. -/
def toolRoundPart (message : CanonicalMessage) : Option ToolRoundId :=
  match message.content with
  | .assistant _ _ (some groupId) _ (_ :: _) => some groupId
  | _ => none

theorem toolRoundPart_eq_some {message : CanonicalMessage} {groupId : ToolRoundId} :
    toolRoundPart message = some groupId ↔ ∃ text thinking replayState toolCalls,
      message.content = .assistant text thinking (some groupId) replayState toolCalls ∧
        toolCalls ≠ [] := by
  unfold toolRoundPart
  split
  · rename_i content
    simp [content]
  · rename_i other
    simp only [reduceCtorEq, false_iff, not_exists, not_and, ne_eq, not_not]
    intro text thinking replayState toolCalls content
    cases toolCalls with
    | nil => rfl
    | cons call calls => exact absurd content (other _ _ _ _ _ _)

/-- `project_tool_round` at the head of the list: the projected round and what follows it. -/
def projectToolRound (messages : List CanonicalMessage) :
    Except Error (Option (List ProjectedMessage × List CanonicalMessage)) :=
  match messages with
  | [] => .ok none
  | message :: rest =>
    match toolRoundPart message with
    | none => .ok none
    | some groupId => do
      let (scan, rest) ← takeParts groupId .empty (message :: rest)
      let output ← scan.close message.messageId
      .ok (some (output, rest))

theorem projectToolRound_length {message : CanonicalMessage} {tail rest : List CanonicalMessage}
    {output : List ProjectedMessage}
    (projected : projectToolRound (message :: tail) = .ok (some (output, rest))) :
    rest.length ≤ tail.length := by
  rw [projectToolRound] at projected
  split at projected
  · cases projected
  · rename_i groupId opens
    obtain ⟨text, thinking, replayState, toolCalls, content, calls⟩ :=
      toolRoundPart_eq_some.mp opens
    rw [takeParts_part content calls] at projected
    obtain ⟨⟨scan, remaining⟩, taken, closed⟩ := except_bind_eq_ok.mp projected
    obtain ⟨part, -, taken⟩ := except_bind_eq_ok.mp taken
    obtain ⟨⟨between, after⟩, results, parts⟩ := except_bind_eq_ok.mp taken
    obtain ⟨group, -, equal⟩ := except_bind_eq_ok.mp closed
    cases equal
    exact (takeParts_length parts).trans (takeResults_length results)

def projectMessages (messages : List CanonicalMessage) : Except Error (List ProjectedMessage) :=
  match messages with
  | [] => .ok []
  | message :: rest =>
    match _projected : projectToolRound (message :: rest) with
    | .error error => .error error
    | .ok (some (group, next)) =>
      match projectMessages next with
      | .error error => .error error
      | .ok output => .ok (group ++ output)
    | .ok none =>
      match projectMessages rest with
      | .error error => .error error
      | .ok output => .ok (projectMessage message :: output)
termination_by messages.length
decreasing_by
  · simp only [List.length_cons]
    exact Nat.lt_succ_of_le (projectToolRound_length _projected)
  · simp only [List.length_cons]
    exact Nat.lt_succ_self _

theorem projectMessages_round {message : CanonicalMessage} {groupId : ToolRoundId}
    (opens : toolRoundPart message = some groupId) (rest : List CanonicalMessage) :
    projectMessages (message :: rest) = (do
      let (scan, next) ← takeParts groupId .empty (message :: rest)
      let group ← scan.close message.messageId
      let more ← projectMessages next
      .ok (group ++ more)) := by
  have round : projectToolRound (message :: rest) = (do
      let (scan, next) ← takeParts groupId .empty (message :: rest)
      let group ← scan.close message.messageId
      .ok (some (group, next))) := by
    rw [projectToolRound, opens]
  rw [projectMessages]
  rcases taken : takeParts groupId .empty (message :: rest) with error | ⟨scan, next⟩
  · split <;> simp_all
  · rcases closed : scan.close message.messageId with error | group
    · split <;> simp_all
    · have found : projectToolRound (message :: rest) = .ok (some (group, next)) := by
        simp [round, taken, closed]
      simp only [except_ok_bind, closed]
      split
      · simp_all
      · rename_i equal
        rw [found] at equal
        cases equal
        rcases projectMessages next with error | more <;> rfl
      · simp_all

theorem projectMessages_single {message : CanonicalMessage} (single : toolRoundPart message = none)
    (rest : List CanonicalMessage) :
    projectMessages (message :: rest) = (do
      let more ← projectMessages rest
      .ok (projectMessage message :: more)) := by
  have round : projectToolRound (message :: rest) = .ok none := by
    rw [projectToolRound, single]
  rw [projectMessages]
  split
  · simp_all
  · simp_all
  · rcases projectMessages rest with error | more <;> rfl

end Byok
