/-
**How far a tool round has come.**

The commands that a round has taken from the queue determine its results (`ToolRound.results`): the
first result for each call, in the order of arrival, then an interrupted one for each call that is left.
`RoundProgress` says that the chain and the rows of the store are those of the results committed so far;
every commit keeps it (`RoundProgress.commit`).
-/

import Byok.Run.Commits
import Byok.Run.RoundParts

set_option linter.unusedSectionVars false

namespace Byok

open Library Transaction Store List

variable {D : Type} [DecidableEq D] [ChainHash D]

/-! ### What the commands amount to -/

/-- The results among some commands that are committed: the first for each call. -/
def reported (commands : List RunCommand) : List ToolResult :=
  commands.foldl (fun results command =>
    match command with
    | .toolResult result =>
      if result.callId ∈ results.map (·.callId) then results else results ++ [result]
    | _ => results) []

/-- The batch of an `InsertMessages`. -/
@[simp]
def RunCommand.inserted? : RunCommand → Option MessageBatch
  | insertMessages batch => some batch
  | toolResult _ | breakMessages _ | cancel => none

/-- The batch of a `BreakMessages`. -/
@[simp]
def RunCommand.broke? : RunCommand → Option MessageBatch
  | breakMessages batch => some batch
  | toolResult _ | insertMessages _ | cancel => none

/-- The batches that a round appends at its end: those it was started with and those inserted
meanwhile, in the order of their arrival, then the one that broke it. -/
def roundBatches (insertions : List MessageBatch) (commands : List RunCommand) : List MessageBatch :=
  insertions ++ commands.filterMap RunCommand.inserted? ++ commands.filterMap RunCommand.broke?

/-- Why the calls without a result are interrupted. -/
def interruptionReason (commands : List RunCommand) : String :=
  if commands.filterMap RunCommand.broke? = [] then timedOutReason else interruptedReason

namespace ToolRound

/-- The results of a round in the order of their commits. -/
def results (round : ToolRound) (commands : List RunCommand) : List ToolResult :=
  reported commands ++
    (round.calls.filter fun call => call.callId ∉ (reported commands).map (·.callId)).map
      (interruptedResult (interruptionReason commands))

/-- A result with the call that it answers. -/
def answer? (round : ToolRound) (result : ToolResult) : Option Answer :=
  (round.calls.find? fun call => call.callId = result.callId).map fun call => (call, result)

/-- The calls of a round in the order of their results. -/
def answers (round : ToolRound) (results : List ToolResult) : List Answer :=
  results.filterMap round.answer?

end ToolRound

@[simp] theorem reported_nil : reported [] = [] := rfl

theorem reported_result (commands : List RunCommand) (result : ToolResult) :
    reported (commands ++ [.toolResult result]) =
      if result.callId ∈ (reported commands).map (·.callId) then reported commands
      else reported commands ++ [result] := by
  rw [reported, foldl_append]
  rfl

theorem reported_other (commands : List RunCommand) {command : RunCommand}
    (other : ∀ result, command ≠ .toolResult result) :
    reported (commands ++ [command]) = reported commands := by
  rw [reported, foldl_append, foldl_cons, foldl_nil, ← reported]
  cases command with
  | toolResult result => exact absurd rfl (other result)
  | _ => rfl

/-- Every call is answered once. -/
structure Answered (round : ToolRound) (results : List ToolResult) : Prop where
  distinct : (results.map (·.callId)).Nodup
  known : ∀ result ∈ results, result.callId ∈ round.calls.map (·.callId)

section Answers

variable {round : ToolRound} {results : List ToolResult}

theorem answer?_eq_some {result : ToolResult} {answer : Answer}
    (found : round.answer? result = some answer) :
    answer.1 ∈ round.calls ∧ answer.1.callId = result.callId ∧ answer.2 = result := by
  obtain ⟨call, selected, rfl⟩ := Option.map_eq_some_iff.mp found
  exact ⟨mem_of_find?_eq_some selected, by simpa using find?_some selected, rfl⟩

theorem answer?_of_known {result : ToolResult} (known : result.callId ∈ round.calls.map (·.callId)) :
    ∃ answer, round.answer? result = some answer := by
  obtain ⟨call, member, same⟩ := mem_map.mp known
  have found : (round.calls.find? fun call => call.callId = result.callId).isSome := by
    rw [find?_isSome]
    exact ⟨call, member, by simpa using same⟩
  obtain ⟨call, found⟩ := Option.isSome_iff_exists.mp found
  exact ⟨(call, result), by rw [ToolRound.answer?, found]; rfl⟩

theorem answers_concat {result : ToolResult} {answer : Answer}
    (found : round.answer? result = some answer) :
    round.answers (results ++ [result]) = round.answers results ++ [answer] := by
  rw [ToolRound.answers, filterMap_append, ← ToolRound.answers]
  simp [found]

theorem answers_callIds (known : ∀ result ∈ results, result.callId ∈ round.calls.map (·.callId)) :
    (round.answers results).map (·.1.callId) = results.map (·.callId) := by
  induction results with
  | nil => rfl
  | cons result rest ih =>
    obtain ⟨answer, found⟩ := answer?_of_known (known result mem_cons_self)
    have later := ih fun other member => known other (mem_cons_of_mem _ member)
    rw [ToolRound.answers, filterMap_cons, found]
    simp only [map_cons, (answer?_eq_some found).2.1]
    rw [← ToolRound.answers, later]

theorem answers_length (known : ∀ result ∈ results, result.callId ∈ round.calls.map (·.callId)) :
    (round.answers results).length = results.length := by
  have lengths := congrArg List.length (answers_callIds known)
  simpa using lengths

theorem Answered.length_le (answered : Answered round results) :
    results.length ≤ round.calls.length := by
  have sub : results.map (·.callId) ⊆ round.calls.map (·.callId) := by
    intro callId member
    obtain ⟨result, inside, rfl⟩ := mem_map.mp member
    exact answered.known result inside
  simpa using (subperm_of_subset answered.distinct sub).length_le

theorem Answered.outstanding (answered : Answered round results)
    (full : round.calls.length ≤ results.length) :
    (round.calls.filter fun call => call.callId ∉ results.map (·.callId)) = [] := by
  have sub : results.map (·.callId) ⊆ round.calls.map (·.callId) := by
    intro callId member
    obtain ⟨result, inside, rfl⟩ := mem_map.mp member
    exact answered.known result inside
  have perm := (subperm_of_subset answered.distinct sub).perm_of_length_le (by simpa using full)
  refine filter_eq_nil_iff.mpr fun call member => ?_
  simpa using perm.mem_iff.mpr (mem_map_of_mem member)

theorem Answered.perm (answered : Answered round results)
    (callIds : (round.calls.map (·.callId)).Nodup)
    (complete : ∀ call ∈ round.calls, call.callId ∈ results.map (·.callId)) :
    ((round.answers results).map (·.1)).Perm round.calls := by
  have ids := answers_callIds answered.known
  have distinct : ((round.answers results).map (·.1)).Nodup := by
    refine List.Nodup.of_map (fun call : ToolCall => call.callId) ?_
    rw [map_map]
    exact ids ▸ answered.distinct
  refine (perm_ext_iff_of_nodup distinct callIds.of_map).mpr fun call => ⟨fun member => ?_, fun member => ?_⟩
  · obtain ⟨answer, inside, rfl⟩ := mem_map.mp member
    obtain ⟨result, -, found⟩ := mem_filterMap.mp inside
    exact (answer?_eq_some found).1
  · have named := complete call member
    rw [← ids] at named
    obtain ⟨answer, inside, same⟩ := mem_map.mp named
    obtain ⟨result, -, found⟩ := mem_filterMap.mp inside
    have equal := inj_on_of_nodup_map callIds (answer?_eq_some found).1 member same
    exact mem_map.mpr ⟨answer, inside, equal⟩

end Answers

/-! ### The rows of a round -/

/-- What a row of `tool_round_calls` says of its call. -/
def ToolRoundCallRow.content (call : ToolRoundCallRow) : ToolCallContent :=
  { index := call.callIndex, callId := call.callId, name := call.name, arguments := call.arguments }

@[simp] theorem ToolCall.row_content (call : ToolCall) : call.row.content = call.content := rfl

theorem answerMessages_content {round : ToolRound} {call : ToolRoundCallRow} {answer : Answer}
    (same : call.content = answer.1.content) (seq : Nat) :
    [assistantPart round.id round.assistant seq call, resultMessage round.id call answer.2] =
      round.answerMessages seq answer := by
  have index : call.callIndex = answer.1.index := congrArg ToolCallContent.index same
  have callId : call.callId = answer.1.callId := congrArg ToolCallContent.callId same
  have name : call.name = answer.1.name := congrArg ToolCallContent.name same
  have arguments : call.arguments = answer.1.arguments := congrArg ToolCallContent.arguments same
  simp [ToolRound.answerMessages, assistantPart, resultMessage, ToolCall.row, index, callId, name,
    arguments]

/-- The row of a round whose calls have the given results. -/
structure RoundRow (prepared : PreparedRun) (round : ToolRound) (results : List ToolResult)
    (row : ToolRoundRow) : Prop where
  runId : row.runId = prepared.runId
  assistant : row.assistant = round.assistant
  nextCompletionSeq : row.nextCompletionSeq = results.length
  calls : row.calls.map ToolRoundCallRow.content = round.calls.map ToolCall.content
  pending : ∀ call ∈ row.calls, call.status = .pending ↔ call.callId ∉ results.map (·.callId)

theorem RoundRow.complete {prepared : PreparedRun} {round : ToolRound} {results : List ToolResult}
    {row : ToolRoundRow} (matching : RoundRow prepared round results row) {result : ToolResult}
    (checkpointId : CheckpointId) (fresh : result.callId ∉ results.map (·.callId)) :
    RoundRow prepared round (results ++ [result]) (row.complete result checkpointId) := by
  constructor
  case runId => exact matching.runId
  case assistant => exact matching.assistant
  case nextCompletionSeq => simp [ToolRoundRow.complete, matching.nextCompletionSeq]
  case calls =>
    rw [← matching.calls, ToolRoundRow.complete, map_map]
    refine map_congr_left fun call member => ?_
    simp only [Function.comp_apply]
    split <;> rfl
  case pending =>
    intro completed member
    obtain ⟨call, inside, rfl⟩ := mem_map.mp member
    have before := matching.pending call inside
    by_cases same : call.callId = result.callId
    · have open' : call.status = .pending := before.mpr (same ▸ fresh)
      simp [same, open', ToolRoundCallRow.complete]
    · simpa [same] using before

/-! ### The chain and the rows -/

/-- The results of a round are on the chain of the run, below `base`, and in the rows of the round. -/
structure RoundProgress (prepared : PreparedRun) (base : List CanonicalMessage) (round : ToolRound)
    (results : List ToolResult) (frame : Frame D) : Prop where
  answered : Answered round results
  chain : frame.chain = base ++ round.parts 0 (round.answers results)
  row : ∃ row, frame.store.toolRounds round.id = some row ∧ RoundRow prepared round results row

namespace RoundProgress

variable {prepared : PreparedRun} {base : List CanonicalMessage} {round : ToolRound}
  {results : List ToolResult} {frame next : Frame D}

theorem leaves (progress : RoundProgress prepared base round results frame)
    (leaves : Leaves prepared.runId frame.store next.store) (chain : next.chain = frame.chain) :
    RoundProgress prepared base round results next := by
  obtain ⟨row, found, matching⟩ := progress.row
  exact ⟨progress.answered, chain.trans progress.chain,
    row, leaves.rounds round.id row found matching.runId, matching⟩

theorem create {store : Store D} {expected : CheckpointId} {nowMs : Int}
    (chain : frame.store.loadCheckpointMessages frame.checkpoint = base)
    (ran : createToolRound round.id prepared.runId expected round.assistant round.calls
      round.recoveredStartedAtMs nowMs frame.store = .ok ((), store)) :
    RoundProgress prepared base round [] { frame with store } := by
  obtain ⟨-, -, -, -, -, rfl⟩ := createToolRound_ok ran
  refine ⟨⟨nodup_nil, by simp⟩, ?_, _, Function.update_self .., rfl, rfl, rfl, ?_, ?_⟩
  · rw [ToolRound.answers, filterMap_nil, ToolRound.parts, append_nil]
    exact chain
  · simp [Function.comp_def]
  · intro call member
    obtain ⟨original, -, rfl⟩ := mem_map.mp member
    simp [ToolCall.row]

/-- **One more result.** It was not there before, it answers a call of the round, and its checkpoint
adds the part and the result of that call. -/
theorem commit (claimed : frame.Claimed prepared)
    (progress : RoundProgress prepared base round results frame)
    (callIds : (round.calls.map (·.callId)).Nodup) {result : ToolResult} {commit : ToolCommit}
    {store : Store D}
    (ran : commitToolResult prepared.conversationId prepared.runId round.id result frame.store =
      .ok (commit, store)) :
    let next : Frame D := { frame with store, checkpoint := commit.checkpointId }
    RoundProgress prepared base round (results ++ [result]) next ∧
      ∃ part, frame.Moves prepared next part [part] := by
  obtain ⟨row', call, expected, committed⟩ := commitToolResult_ok claimed.wellFormed ran
  obtain ⟨row, found, matching⟩ := progress.row
  rw [committed.stored] at found
  cases found
  -- the row of the call is one of the round's, and it is pending
  have inside : call ∈ row'.calls := mem_of_find?_eq_some committed.found
  have named : call.callId = result.callId := by
    simpa using find?_some committed.found
  have fresh : result.callId ∉ results.map (·.callId) :=
    named ▸ (matching.pending call inside).mp committed.pending
  have listed : call.content ∈ round.calls.map ToolCall.content :=
    matching.calls ▸ mem_map_of_mem inside
  obtain ⟨original, originalMember, content⟩ := mem_map.mp listed
  have originalNamed : original.callId = result.callId :=
    (congrArg ToolCallContent.callId content).trans named
  have known : result.callId ∈ round.calls.map (·.callId) :=
    originalNamed ▸ mem_map_of_mem originalMember
  obtain ⟨answer, answered⟩ := answer?_of_known known
  obtain ⟨answerMember, answerNamed, answerResult⟩ := answer?_eq_some answered
  obtain rfl : answer.1 = original :=
    inj_on_of_nodup_map callIds answerMember originalMember (answerNamed.trans originalNamed.symm)
  have moves := commitToolResult_moves claimed committed
  have messages : [assistantPart round.id row'.assistant row'.nextCompletionSeq call,
      resultMessage round.id call result] =
        round.answerMessages (round.answers results).length answer := by
    rw [matching.assistant, matching.nextCompletionSeq, ← answers_length progress.answered.known,
      ← answerResult]
    exact answerMessages_content content.symm _
  rw [messages] at moves
  obtain ⟨above, between, -, done, same⟩ := committed.between
  obtain ⟨last, inserted, advanced⟩ := done.between
  have rounds : between.toolRounds = frame.store.toolRounds := by
    rw [advanced]
    exact inserted.toolRounds
  refine ⟨⟨⟨?_, ?_⟩, ?_, row'.complete result commit.checkpointId, ?_,
    matching.complete commit.checkpointId fresh⟩, ?_⟩
  · rw [map_append]
    exact nodup_append.mpr ⟨progress.answered.distinct, nodup_singleton _,
      fun one member other single equal => fresh (by simp_all)⟩
  · intro other member
    rcases mem_append.mp member with old | new
    · exact progress.answered.known other old
    · rwa [mem_singleton.mp new]
  · rw [moves.chain, progress.chain, answers_concat answered, ToolRound.parts_append,
      Nat.zero_add, append_assoc]
    simp [ToolRound.parts]
  · rw [same]
    simp [rounds, committed.stored]
  · exact ⟨_, moves⟩

end RoundProgress

end Byok
