/-
**The projection as one pass over the history.**

`project_messages` jumps from group to group. Read one message at a time it is a transducer whose
state is the tool round that is open at the current position (`projector`):

* `projectMessages_eq_transduce` — the nested loops of the source are this transducer.
* `trailingToolRound` — the round a list ends in, and `run_trailing`: it is the transducer's state.
* `projectMessages_append_iff` — **prefix stability**: a history that does not continue the last
  round of its prefix projects to the prefix's projection and its own.
-/

import Byok.Model.Projection

namespace Byok

open Library

/-- The tool round that is open while a history is read: its id, the message id of its first part
and the locals of `project_tool_round`. -/
structure OpenRound where
  groupId : ToolRoundId
  messageId : String
  scan : ToolRoundScan
deriving DecidableEq, Repr

namespace OpenRound

/-- The round takes the message in: it is a part of the round or a result of one of its calls. -/
def continues (round : OpenRound) (message : CanonicalMessage) : Bool :=
  match message.content with
  | .assistant _ _ (some candidate) _ toolCalls => candidate = round.groupId ∧ toolCalls ≠ []
  | .toolResult result => round.scan.hasCall result.callId
  | _ => false

/-- The round after a message that it takes in. -/
def absorb (round : OpenRound) (message : CanonicalMessage) : Except Error OpenRound :=
  match message.content with
  | .assistant text thinking _ replayState toolCalls => do
      let scan ← round.scan.addPart text thinking replayState toolCalls
      .ok { round with scan }
  | .toolResult result => do
      let scan ← round.scan.addResult message.messageId result
      .ok { round with scan }
  | .parts _ => .ok round

/-- The projected round. -/
def close (round : OpenRound) : Except Error (List ProjectedMessage) :=
  round.scan.close round.messageId

end OpenRound

/-- A message read while no round is open. -/
def openRound (message : CanonicalMessage) :
    Except Error (List ProjectedMessage × Option OpenRound) :=
  match message.content with
  | .assistant text thinking (some groupId) replayState (call :: calls) => do
      let scan ← ToolRoundScan.empty.addPart text thinking replayState (call :: calls)
      .ok ([], some ⟨groupId, message.messageId, scan⟩)
  | _ => .ok ([projectMessage message], none)

/-- The projection, one message at a time. -/
def projector : Transducer (Option OpenRound) CanonicalMessage ProjectedMessage Error where
  step
    | none, message => openRound message
    | some round, message =>
      if round.continues message then do
        let round ← round.absorb message
        .ok ([], some round)
      else do
        let group ← round.close
        let (out, next) ← openRound message
        .ok (group ++ out, next)
  finish
    | none => .ok []
    | some round => round.close

/-! ### The loops of the source are the transducer -/

section Steps

variable {message : CanonicalMessage} {round : OpenRound}

@[simp] theorem finish_none : projector.finish none = .ok [] := rfl

@[simp] theorem finish_some (round : OpenRound) : projector.finish (some round) = round.close := rfl

@[simp] theorem step_none (message : CanonicalMessage) :
    projector.step none message = openRound message := rfl

theorem step_continue (continued : round.continues message = true) :
    projector.step (some round) message = (do
      let round ← round.absorb message
      .ok ([], some round)) := by
  simp [projector, continued]

theorem step_apart (apart : round.continues message = false) :
    projector.step (some round) message = (do
      let group ← round.close
      let (out, next) ← openRound message
      .ok (group ++ out, next)) := by
  simp [projector, apart]

theorem restarts_apart {open? : Option OpenRound} {messages : List CanonicalMessage}
    (apart : ∀ round ∈ open?, ∀ message ∈ messages.head?, round.continues message = false) :
    projector.Restarts none open? messages := by
  refine projector.restarts_of_head rfl fun message head => ?_
  cases open? with
  | none =>
    simp only [finish_none, except_ok_bind, step_none]
    rcases openRound message with error | ⟨out, next⟩ <;> rfl
  | some round =>
    rw [step_apart (apart round rfl message head)]
    rfl

theorem openRound_single (single : toolRoundPart message = none) :
    openRound message = .ok ([projectMessage message], none) := by
  unfold openRound
  split
  · rename_i content
    simp [toolRoundPart, content] at single
  · rfl

theorem openRound_part {groupId : ToolRoundId} {text thinking : String}
    {replayState : Option ProviderReplayState} {toolCalls : List ToolCallContent}
    (content : message.content = .assistant text thinking (some groupId) replayState toolCalls)
    (calls : toolCalls ≠ []) : openRound message = (do
      let scan ← ToolRoundScan.empty.addPart text thinking replayState toolCalls
      .ok ([], some ⟨groupId, message.messageId, scan⟩)) := by
  cases toolCalls with
  | nil => exact absurd rfl calls
  | cons call rest => simp only [openRound, content]

theorem message_cases (round : OpenRound) (message : CanonicalMessage) :
    (∃ result, message.content = .toolResult result ∧
      round.scan.hasCall result.callId = true) ∨
    (∃ text thinking replayState toolCalls,
      message.content = .assistant text thinking (some round.groupId) replayState toolCalls ∧
        toolCalls ≠ []) ∨
    round.continues message = false := by
  rcases content : message.content with parts | ⟨text, thinking, group, replayState, calls⟩ | result
  · simp [OpenRound.continues, content]
  · rcases group with _ | group
    · simp [OpenRound.continues, content]
    · by_cases same : group = round.groupId ∧ calls ≠ []
      · obtain ⟨rfl, some⟩ := same
        exact .inr (.inl ⟨text, thinking, replayState, calls, rfl, some⟩)
      · refine .inr (.inr ?_)
        simpa [OpenRound.continues, content] using same
  · by_cases called : round.scan.hasCall result.callId = true
    · exact .inl ⟨result, rfl, called⟩
    · refine .inr (.inr ?_)
      simpa [OpenRound.continues, content] using called

end Steps

theorem transduce_some (groupId : ToolRoundId) (messageId : String) (scan : ToolRoundScan)
    (messages : List CanonicalMessage) :
    projector.transduce (some ⟨groupId, messageId, scan⟩) messages = (do
      let (scan, rest) ← takeResults scan messages
      let (scan, rest) ← takeParts groupId scan rest
      let group ← scan.close messageId
      let more ← projector.transduce none rest
      .ok (group ++ more)) := by
  induction messages generalizing scan with
  | nil =>
    simp only [Transducer.transduce_nil, finish_some, takeResults, except_ok_bind, takeParts,
      finish_none, OpenRound.close]
    rcases scan.close messageId with error | group <;> simp
  | cons message rest ih =>
    -- the three ways on: a result of the round, a part of it, anything else
    rcases message_cases ⟨groupId, messageId, scan⟩ message with
      ⟨result, content, called⟩ | ⟨text, thinking, replayState, toolCalls, content, calls⟩ | apart
    · have continued : OpenRound.continues ⟨groupId, messageId, scan⟩ message = true := by
        simpa [OpenRound.continues, content] using called
      rw [Transducer.transduce_cons, step_continue continued, takeResults_answer content called]
      simp only [OpenRound.absorb, content]
      rcases scan.addResult message.messageId result with error | next
      · rfl
      · simp only [except_ok_bind, ih, List.nil_append]
        exact bind_pure _
    · have continued : OpenRound.continues ⟨groupId, messageId, scan⟩ message = true := by
        simp [OpenRound.continues, content, calls]
      have results : takeResults scan (message :: rest) = .ok (scan, message :: rest) :=
        takeResults_other (fun _ other => absurd (content.symm.trans other) (by simp)) rest
      rw [Transducer.transduce_cons, step_continue continued, results, except_ok_bind]
      simp only [OpenRound.absorb, content, takeParts_part content calls]
      rcases scan.addPart text thinking replayState toolCalls with error | next
      · rfl
      · simp only [except_ok_bind, ih, List.nil_append, bind_assoc]
    · have results : takeResults scan (message :: rest) = .ok (scan, message :: rest) := by
        refine takeResults_other (fun result content => ?_) rest
        simpa [OpenRound.continues, content] using apart
      have parts : takeParts groupId scan (message :: rest) = .ok (scan, message :: rest) := by
        refine takeParts_other (fun text thinking replayState toolCalls content => ?_) rest
        simpa [OpenRound.continues, content] using apart
      have split : projector.transduce (some ⟨groupId, messageId, scan⟩) (message :: rest) = _ :=
        restarts_apart (by simpa using apart)
      rw [split, results, except_ok_bind]
      simp only [parts]
      rfl

/-- **The loops of the source are one pass of the transducer.** -/
theorem projectMessages_eq_transduce (messages : List CanonicalMessage) :
    projectMessages messages = projector.transduce none messages := by
  induction counted : messages.length using Nat.strong_induction_on generalizing messages with
  | _ size ih =>
    cases messages with
    | nil => simp [projectMessages]
    | cons message rest =>
      cases opens : toolRoundPart message with
      | none =>
        rw [projectMessages_single opens, Transducer.transduce_cons, step_none,
          openRound_single opens, except_ok_bind, ih rest.length (by simp [← counted]) rest rfl]
        rfl
      | some groupId =>
        obtain ⟨text, thinking, replayState, toolCalls, content, calls⟩ :=
          toolRoundPart_eq_some.mp opens
        rw [projectMessages_round opens, takeParts_part content calls, Transducer.transduce_cons,
          step_none, openRound_part content calls]
        rcases ToolRoundScan.empty.addPart text thinking replayState toolCalls with error | scan
        · rfl
        · simp only [except_ok_bind, transduce_some, List.nil_append, bind_assoc]
          rcases results : takeResults scan rest with error | ⟨between, after⟩
          · rfl
          · simp only [except_ok_bind]
            rcases parts : takeParts groupId between after with error | ⟨last, next⟩
            · rfl
            · have shorter : next.length < size := by
                rw [← counted]
                exact Nat.lt_succ_of_le ((takeParts_length parts).trans (takeResults_length results))
              simp only [except_ok_bind, ih next.length shorter next rfl]

/-! ### Inversion

What a translation that succeeds has read at its first message. -/

section Inversion

variable {message : CanonicalMessage} {rest : List CanonicalMessage} {out : List ProjectedMessage}

theorem transduce_none_ok (done : projector.transduce none (message :: rest) = .ok out) :
    (toolRoundPart message = none ∧ ∃ more, projector.transduce none rest = .ok more ∧
      out = projectMessage message :: more) ∨
    ∃ groupId text thinking replayState toolCalls scan,
      message.content = .assistant text thinking (some groupId) replayState toolCalls ∧
      toolCalls ≠ [] ∧ ToolRoundScan.empty.addPart text thinking replayState toolCalls = .ok scan ∧
      projector.transduce (some ⟨groupId, message.messageId, scan⟩) rest = .ok out := by
  rw [Transducer.transduce_cons, step_none] at done
  cases opens : toolRoundPart message with
  | none =>
    rw [openRound_single opens, except_ok_bind] at done
    obtain ⟨more, ran, equal⟩ := except_bind_eq_ok.mp done
    cases equal
    exact .inl ⟨rfl, more, ran, rfl⟩
  | some groupId =>
    obtain ⟨text, thinking, replayState, toolCalls, content, calls⟩ :=
      toolRoundPart_eq_some.mp opens
    rw [openRound_part content calls] at done
    obtain ⟨⟨first, state⟩, opened, done⟩ := except_bind_eq_ok.mp done
    obtain ⟨scan, added, equal⟩ := except_bind_eq_ok.mp opened
    cases equal
    obtain ⟨more, ran, equal⟩ := except_bind_eq_ok.mp done
    cases equal
    exact .inr ⟨groupId, text, thinking, replayState, toolCalls, scan, content, calls, added, ran⟩

theorem transduce_some_ok {round : OpenRound}
    (done : projector.transduce (some round) (message :: rest) = .ok out) :
    (∃ result scan, message.content = .toolResult result ∧
      round.scan.hasCall result.callId = true ∧
      round.scan.addResult message.messageId result = .ok scan ∧
      projector.transduce (some { round with scan }) rest = .ok out) ∨
    (∃ text thinking replayState toolCalls scan,
      message.content = .assistant text thinking (some round.groupId) replayState toolCalls ∧
      toolCalls ≠ [] ∧ round.scan.addPart text thinking replayState toolCalls = .ok scan ∧
      projector.transduce (some { round with scan }) rest = .ok out) ∨
    (round.continues message = false ∧ ∃ group more, round.close = .ok group ∧
      projector.transduce none (message :: rest) = .ok more ∧ out = group ++ more) := by
  rcases message_cases round message with
    ⟨result, content, called⟩ | ⟨text, thinking, replayState, toolCalls, content, calls⟩ | apart
  · have continued : round.continues message = true := by
      simpa [OpenRound.continues, content] using called
    rw [Transducer.transduce_cons, step_continue continued, OpenRound.absorb, content] at done
    obtain ⟨⟨first, state⟩, stepped, done⟩ := except_bind_eq_ok.mp done
    obtain ⟨_, absorbed, equal⟩ := except_bind_eq_ok.mp stepped
    obtain ⟨scan, added, same⟩ := except_bind_eq_ok.mp absorbed
    cases same
    cases equal
    obtain ⟨more, ran, equal⟩ := except_bind_eq_ok.mp done
    cases equal
    exact .inl ⟨result, scan, content, called, added, ran⟩
  · have continued : round.continues message = true := by
      simp [OpenRound.continues, content, calls]
    rw [Transducer.transduce_cons, step_continue continued, OpenRound.absorb, content] at done
    obtain ⟨⟨first, state⟩, stepped, done⟩ := except_bind_eq_ok.mp done
    obtain ⟨_, absorbed, equal⟩ := except_bind_eq_ok.mp stepped
    obtain ⟨scan, added, same⟩ := except_bind_eq_ok.mp absorbed
    cases same
    cases equal
    obtain ⟨more, ran, equal⟩ := except_bind_eq_ok.mp done
    cases equal
    exact .inr (.inl ⟨text, thinking, replayState, toolCalls, scan, content, calls, added, ran⟩)
  · have split : projector.transduce (some round) (message :: rest) = _ :=
      restarts_apart (by simpa using apart)
    rw [split, finish_some] at done
    obtain ⟨group, closed, done⟩ := except_bind_eq_ok.mp done
    obtain ⟨more, ran, equal⟩ := except_bind_eq_ok.mp done
    cases equal
    exact .inr (.inr ⟨apart, group, more, closed, ran, rfl⟩)

end Inversion

/-! ### Prefix stability -/

/-- The tool round that a list ends in (its id and the call ids of its parts so far), after one
more message. -/
def extendTrailing (trailing : Option (ToolRoundId × List String)) (message : CanonicalMessage) :
    Option (ToolRoundId × List String) :=
  match message.content, trailing with
  | .assistant _ _ (some groupId) _ (call :: calls), some (candidate, callIds) =>
      if candidate = groupId then some (groupId, callIds ++ (call :: calls).map (·.callId))
      else some (groupId, (call :: calls).map (·.callId))
  | .assistant _ _ (some groupId) _ (call :: calls), none =>
      some (groupId, (call :: calls).map (·.callId))
  | .toolResult result, some (groupId, callIds) =>
      if result.callId ∈ callIds then some (groupId, callIds) else none
  | _, _ => none

/-- The tool round that a list ends in: parts of one round, each followed by results of calls that
the round has made by then. -/
def trailingToolRound (messages : List CanonicalMessage) : Option (ToolRoundId × List String) :=
  messages.foldl extendTrailing none

/-- The message is an assistant tool-call part with the id of the round, or a tool result that
answers a call of the round. -/
def ContinuesTrailing (trailing : Option (ToolRoundId × List String)) (message : CanonicalMessage) :
    Prop :=
  ∃ groupId callIds, trailing = some (groupId, callIds) ∧
    ((∃ text thinking replayState call calls,
        message.content = .assistant text thinking (some groupId) replayState (call :: calls)) ∨
      ∃ result, message.content = .toolResult result ∧ result.callId ∈ callIds)

/-- What `trailingToolRound` keeps of the open round. -/
def OpenRound.trailing (round : OpenRound) : ToolRoundId × List String :=
  (round.groupId, round.scan.calls.map (·.callId))

section Trailing

variable {message : CanonicalMessage} {round : OpenRound}

theorem hasCall_iff {scan : ToolRoundScan} {callId : String} :
    scan.hasCall callId = true ↔ callId ∈ scan.calls.map (·.callId) := by
  simp [ToolRoundScan.hasCall]

theorem addPart_ok {scan next : ToolRoundScan} {text thinking : String}
    {replayState : Option ProviderReplayState} {toolCalls : List ToolCallContent}
    (added : scan.addPart text thinking replayState toolCalls = .ok next) :
    next = { scan with
      text := scan.text ++ text
      thinking := scan.thinking ++ thinking
      replayState := if scan.replayState.isNone then replayState else scan.replayState
      calls := scan.calls ++ toolCalls.map normalizedToolCall } ∧
    ¬ (scan.replayState.isSome ∧ replayState.isSome) := by
  rw [ToolRoundScan.addPart] at added
  split at added
  · cases added
  · rename_i single
    cases added
    exact ⟨rfl, single⟩

theorem addResult_ok {scan next : ToolRoundScan} {messageId : String} {result : ToolResultContent}
    (added : scan.addResult messageId result = .ok next) :
    next = { scan with results := scan.results ++ [(messageId, result)] } ∧
      scan.hasResult result.callId = false := by
  rw [ToolRoundScan.addResult] at added
  split at added
  · cases added
  · rename_i first
    cases added
    exact ⟨rfl, by simpa using first⟩

theorem openRound_trailing {out : List ProjectedMessage} {next : Option OpenRound}
    (stepped : openRound message = .ok (out, next)) :
    next.map OpenRound.trailing = extendTrailing none message := by
  rw [openRound] at stepped
  split at stepped
  · rename_i content
    obtain ⟨scan, added, equal⟩ := except_bind_eq_ok.mp stepped
    cases equal
    obtain ⟨rfl, -⟩ := addPart_ok added
    simp [extendTrailing, content, OpenRound.trailing, ToolRoundScan.empty, normalizedToolCall,
      Function.comp_def]
  · rename_i other
    cases stepped
    rw [extendTrailing.eq_def]
    split
    · simp_all
    · rename_i content _
      exact absurd content (other _ _ _ _ _ _)
    · simp_all
    · simp

theorem not_continues_of_apart (apart : ¬ ContinuesTrailing (some round.trailing) message) :
    round.continues message = false := by
  rcases message_cases round message with
    ⟨result, content, called⟩ | ⟨text, thinking, replayState, toolCalls, content, calls⟩ | other
  · exact absurd ⟨_, _, rfl, .inr ⟨result, content, hasCall_iff.mp called⟩⟩ apart
  · obtain ⟨call, rest, rfl⟩ := List.exists_cons_of_ne_nil calls
    exact absurd ⟨_, _, rfl, .inl ⟨_, _, _, _, _, content⟩⟩ apart
  · exact other

theorem extendTrailing_apart (apart : round.continues message = false) :
    extendTrailing (some round.trailing) message = extendTrailing none message := by
  rcases content : message.content with parts | ⟨text, thinking, group, replayState, calls⟩ | result
  · simp [extendTrailing, content]
  · rcases group with _ | group
    · simp [extendTrailing, content]
    · cases calls with
      | nil => simp [extendTrailing, content]
      | cons call calls =>
        have other : ¬ round.groupId = group := by
          simpa [OpenRound.continues, content, eq_comm] using apart
        simp [extendTrailing, content, OpenRound.trailing, other]
  · have uncalled : result.callId ∉ round.scan.calls.map (·.callId) := by
      rw [← hasCall_iff]
      simpa [OpenRound.continues, content] using apart
    simp only [extendTrailing, content, OpenRound.trailing, uncalled, if_false]

theorem step_trailing {open? next : Option OpenRound} {out : List ProjectedMessage}
    (stepped : projector.step open? message = .ok (out, next)) :
    next.map OpenRound.trailing = extendTrailing (open?.map OpenRound.trailing) message := by
  cases open? with
  | none => exact openRound_trailing stepped
  | some round =>
    rcases message_cases round message with
      ⟨result, content, called⟩ | ⟨text, thinking, replayState, toolCalls, content, calls⟩ | apart
    · have continued : round.continues message = true := by
        simpa [OpenRound.continues, content] using called
      rw [step_continue continued, OpenRound.absorb, content] at stepped
      obtain ⟨_, absorbed, equal⟩ := except_bind_eq_ok.mp stepped
      obtain ⟨scan, added, same⟩ := except_bind_eq_ok.mp absorbed
      cases same
      cases equal
      obtain ⟨rfl, -⟩ := addResult_ok added
      simp [extendTrailing, content, OpenRound.trailing, hasCall_iff.mp called]
    · have continued : round.continues message = true := by
        simp [OpenRound.continues, content, calls]
      rw [step_continue continued, OpenRound.absorb, content] at stepped
      obtain ⟨_, absorbed, equal⟩ := except_bind_eq_ok.mp stepped
      obtain ⟨scan, added, same⟩ := except_bind_eq_ok.mp absorbed
      cases same
      cases equal
      obtain ⟨rfl, -⟩ := addPart_ok added
      obtain ⟨call, rest, rfl⟩ := List.exists_cons_of_ne_nil calls
      simp [extendTrailing, content, OpenRound.trailing, normalizedToolCall, Function.comp_def]
    · rw [step_apart apart] at stepped
      obtain ⟨group, -, opened⟩ := except_bind_eq_ok.mp stepped
      obtain ⟨⟨rest, after⟩, opened, equal⟩ := except_bind_eq_ok.mp opened
      cases equal
      rw [Option.map_some, extendTrailing_apart apart]
      exact openRound_trailing opened

theorem run_trailing {open? next : Option OpenRound} {messages : List CanonicalMessage}
    {out : List ProjectedMessage} (ran : projector.run open? messages = .ok (out, next)) :
    next.map OpenRound.trailing =
      messages.foldl extendTrailing (open?.map OpenRound.trailing) := by
  induction messages generalizing open? out with
  | nil => cases ran; rfl
  | cons message rest ih =>
    obtain ⟨⟨first, between⟩, stepped, ran⟩ := except_bind_eq_ok.mp ran
    obtain ⟨⟨more, last⟩, ran, equal⟩ := except_bind_eq_ok.mp ran
    cases equal
    rw [List.foldl_cons, ← step_trailing stepped]
    exact ih ran

end Trailing

theorem projectMessages_append {front back : List CanonicalMessage}
    (apart : ∀ message ∈ back.head?, ¬ ContinuesTrailing (trailingToolRound front) message) :
    projectMessages (front ++ back) = (do
      let out ← projectMessages front
      let more ← projectMessages back
      .ok (out ++ more)) := by
  simp only [projectMessages_eq_transduce]
  refine projector.transduce_append fun out open? ran => restarts_apart ?_
  rintro round rfl message head
  have ends : some round.trailing = trailingToolRound front := run_trailing ran
  exact not_continues_of_apart (ends ▸ apart message head)

/-- **Prefix stability of the provider-visible history.** -/
theorem projectMessages_append_iff (front back : List CanonicalMessage)
    (apart : ∀ message ∈ back.head?, ¬ ContinuesTrailing (trailingToolRound front) message) :
    ((∃ whole, projectMessages (front ++ back) = .ok whole) ↔
      (∃ out, projectMessages front = .ok out) ∧ ∃ more, projectMessages back = .ok more) ∧
    (∀ out more, projectMessages front = .ok out → projectMessages back = .ok more →
      projectMessages (front ++ back) = .ok (out ++ more)) ∧
    ∀ whole, projectMessages (front ++ back) = .ok whole →
      ∃ out, projectMessages front = .ok out ∧ out <+: whole := by
  rw [projectMessages_append apart]
  rcases projectMessages front with error | out
  · simp
  · rcases projectMessages back with error | more <;> simp

/-- A call with its result, then a question of the user. -/
def sampleRound : List CanonicalMessage :=
  [{ messageId := "part", role := .assistant, origin := .assistant
     content := .assistant "looking" "" (some ⟨"run:round:0"⟩) none
       [{ index := 0, callId := "call", name := "read file", arguments := .null }]
     runtimeEventId := none },
   { messageId := "result", role := .tool, origin := .tool
     content := .toolResult
       { callId := "call", name := "read file", content := "text", isError := false, image := none
         providerParts := [] }
     runtimeEventId := none }]

/-- A question of the user. -/
def sampleQuestion : CanonicalMessage :=
  { messageId := "question", role := .user, origin := .user
    content := .parts [.text "and now?"], runtimeEventId := none }

theorem projectMessages_append_iff_sample :
    ((∃ whole, projectMessages (sampleRound ++ [sampleQuestion]) = .ok whole) ↔
      (∃ out, projectMessages sampleRound = .ok out) ∧
        ∃ more, projectMessages [sampleQuestion] = .ok more) ∧
    (∀ out more, projectMessages sampleRound = .ok out →
      projectMessages [sampleQuestion] = .ok more →
      projectMessages (sampleRound ++ [sampleQuestion]) = .ok (out ++ more)) ∧
    ∀ whole, projectMessages (sampleRound ++ [sampleQuestion]) = .ok whole →
      ∃ out, projectMessages sampleRound = .ok out ∧ out <+: whole :=
  projectMessages_append_iff sampleRound [sampleQuestion] (by
    rintro message head ⟨_, _, -, ⟨_, _, _, _, _, content⟩ | ⟨_, content, _⟩⟩ <;>
      cases head <;> cases content)

end Byok
