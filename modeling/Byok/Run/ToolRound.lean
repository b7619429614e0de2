/-
**Executing a tool round.** `server/src/run/tool_round.rs`.

A round is created in the store, its results are taken from the queue and committed one by one, and
whatever has no result when the round ends early is filled in as interrupted. The messages that came in
meanwhile are appended last.

* `RoundPc` — where `execute` is; each `await` is a place of its own.
* `RoundPc.step` — its steps.
-/

import Byok.Run.Messages
import Byok.Store.ToolRounds

namespace Byok

open Library

variable {D : Type} [DecidableEq D] [ChainHash D]

structure ToolRound where
  id : ToolRoundId
  assistant : ToolRoundAssistant
  calls : List ToolCall
  recoveredStartedAtMs : Option Nat
deriving DecidableEq, Repr

/-- The reason for a result that did not come in time. -/
def timedOutReason : String := "Tool execution did not report a result in time."

/-- The reason for a result that a newer message of the user cut off. -/
def interruptedReason : String := "Tool execution was interrupted by a newer user message."

/-- The result that `interrupt_remaining` fills in for a call. -/
def interruptedResult (reason : String) (call : ToolCall) : ToolResult :=
  { callId := call.callId, content := reason, isError := true, image := none }

/-- The locals of the loop of `execute`. `completed` lists `completed_call_ids` in the order of their
commits. -/
structure RoundLocals where
  remaining : Nat
  completed : List String
  insertions : List MessageBatch
deriving DecidableEq, Repr

namespace RoundLocals

/-- The calls that have no result yet. -/
def outstanding (locals : RoundLocals) (calls : List ToolCall) : List ToolCall :=
  calls.filter fun call => call.callId ∉ locals.completed

/-- The locals after a result is committed. -/
def complete (locals : RoundLocals) (callId : String) : RoundLocals :=
  { locals with remaining := locals.remaining - 1, completed := locals.completed ++ [callId] }

/-- The locals after `InsertMessages`. -/
def insert (locals : RoundLocals) (batch : MessageBatch) : RoundLocals :=
  { locals with insertions := locals.insertions ++ [batch] }

end RoundLocals

/-- Where `execute` is. The two calls of `append_batches` at its end, whose flags are dropped, are one
call with the batches of both. -/
inductive RoundPc where
  | create (insertions : List MessageBatch)
  | announce (insertions : List MessageBatch)
  | receive (locals : RoundLocals)
  | reported (locals : RoundLocals) (settled : Bool)
  | interrupt (todo : List ToolCall) (reason : String) (batches : List MessageBatch)
  | interrupted (todo : List ToolCall) (reason : String) (settled : Bool)
      (batches : List MessageBatch)
  | append (pc : AppendPc)
deriving DecidableEq, Repr

/-- `commit_tool_result`, with what `execute` and `interrupt_remaining` do after it. -/
def Frame.commitToolResult (prepared : PreparedRun) (roundId : ToolRoundId) (result : ToolResult)
    (frame : Frame D) : Except RunOutcome (Frame D × Bool) :=
  match Store.commitToolResult prepared.conversationId prepared.runId roundId result frame.store with
  | .ok (committed, store) =>
    .ok ({ frame with
      store
      checkpoint := committed.checkpointId
      accounted := result.callId :: frame.accounted }, committed.settled)
  | .error error => .error (.failed error.failure)

namespace RoundPc

/-- The batches that are not answered yet. -/
def held : RoundPc → List MessageBatch
  | create insertions => insertions
  | announce insertions => insertions
  | receive locals => locals.insertions
  | reported locals _ => locals.insertions
  | interrupt _ _ batches => batches
  | interrupted _ _ _ batches => batches
  | append pc => pc.held

/-- The end of the loop: what has no result is interrupted, and the batches are appended. -/
def leave (round : ToolRound) (locals : RoundLocals) (reason : String) (more : List MessageBatch) :
    RoundPc :=
  interrupt (locals.outstanding round.calls) reason (locals.insertions ++ more)

/-- The loop of `execute` at a command. -/
def onCommand (prepared : PreparedRun) (round : ToolRound) (locals : RoundLocals)
    (frame : Frame D) : RunCommand → Frame D × Progress RoundPc Unit
  | .toolResult result =>
    if result.callId ∈ locals.completed then (frame, .onward (receive locals))
    else
      match frame.commitToolResult prepared round.id result with
      | .ok (next, settled) => (next, .onward (reported (locals.complete result.callId) settled))
      | .error outcome => (frame, .stopped outcome)
  | .breakMessages batch => (frame, .onward (leave round locals interruptedReason [batch]))
  | .insertMessages batch => (frame, .onward (receive (locals.insert batch)))
  | .cancel => (frame, .stopped .cancelled)

/-- The loop of `execute` when the store fails on the result that it has taken from the queue. -/
def onStoreFailure (locals : RoundLocals) (frame : Frame D) (error : Error) :
    Option (Frame D × Progress RoundPc Unit) :=
  match frame.port.commands with
  | .toolResult result :: _ =>
    if result.callId ∈ locals.completed then none
    else (frame.receive (.toolResult result)).map fun next => (next, .stopped (.failed error.failure))
  | _ => none

/-- `append_batches` as the end of `execute`. -/
def ofAppend : Progress AppendPc Bool → Progress RoundPc Unit
  | .onward pc => .onward (append pc)
  | .returned _ => .returned ()
  | .stopped outcome => .stopped outcome

/-- A step of `execute`. -/
def step (prepared : PreparedRun) (nowMs : Int) (round : ToolRound) (frame : Frame D) :
    RoundPc → Event → Option (Frame D × Progress RoundPc Unit)
  | create insertions, .proceed =>
    match Store.createToolRound round.id prepared.runId frame.checkpoint round.assistant round.calls
        round.recoveredStartedAtMs nowMs frame.store with
    | .ok ((), store) => some ({ frame with store }, .onward (announce insertions))
    | .error error => some (frame, .stopped (.failed error.failure))
  | create _, .storeFailed error => some (frame, .stopped (.failed error.failure))
  | announce insertions, event =>
    frame.announced false (.onward (receive ⟨round.calls.length, [], insertions⟩)) event
  | receive locals, .elapsed => some (frame, .onward (leave round locals timedOutReason []))
  | receive locals, .receive command =>
    (frame.receive command).map fun next => onCommand prepared round locals next command
  | receive locals, .storeFailed error => onStoreFailure locals frame error
  | receive _, .disconnected =>
    if frame.port.commands = [] then some (frame, .stopped clientFailure) else none
  | receive _, .cancelled => if frame.port.cancelled then some (frame, .stopped .cancelled) else none
  | reported locals settled, event =>
    frame.announced settled (.onward (if locals.remaining = 0 then
      leave round locals interruptedReason [] else receive locals)) event
  | interrupt [] _ batches, .proceed => some (frame, .onward (append (.next batches false)))
  | interrupt (call :: todo) reason batches, .proceed =>
    match frame.commitToolResult prepared round.id (interruptedResult reason call) with
    | .ok (next, settled) => some (next, .onward (interrupted todo reason settled batches))
    | .error outcome => some (frame, .stopped outcome)
  | interrupt (_ :: _) _ _, .storeFailed error => some (frame, .stopped (.failed error.failure))
  | interrupted todo reason settled batches, event =>
    frame.announced settled (.onward (interrupt todo reason batches)) event
  | append pc, event =>
    (pc.step prepared frame event).map fun (next, progress) => (next, ofAppend progress)
  | _, _ => none

/-- What a step of `execute` can be. -/
inductive Steps (prepared : PreparedRun) (round : ToolRound) (frame : Frame D) :
    RoundPc → Event → Frame D → Progress RoundPc Unit → Prop
  | create (insertions : List MessageBatch) {nowMs : Int} {store : Store D}
      (ran : Store.createToolRound round.id prepared.runId frame.checkpoint round.assistant
        round.calls round.recoveredStartedAtMs nowMs frame.store = .ok ((), store)) :
      Steps prepared round frame (create insertions) .proceed { frame with store }
        (.onward (announce insertions))
  | announce (insertions : List MessageBatch) :
      Steps prepared round frame (announce insertions) .proceed frame
        (.onward (receive ⟨round.calls.length, [], insertions⟩))
  | elapse (locals : RoundLocals) :
      Steps prepared round frame (receive locals) .elapsed frame
        (.onward (leave round locals timedOutReason []))
  | ignore (locals : RoundLocals) {result : ToolResult} {rest : List RunCommand}
      (queue : frame.port.commands = .toolResult result :: rest)
      (known : result.callId ∈ locals.completed) :
      Steps prepared round frame (receive locals) (.receive (.toolResult result))
        { frame with port := { frame.port with commands := rest } } (.onward (receive locals))
  | report (locals : RoundLocals) {result : ToolResult} {rest : List RunCommand}
      {committed : ToolCommit} {store : Store D}
      (queue : frame.port.commands = .toolResult result :: rest)
      (fresh : result.callId ∉ locals.completed)
      (ran : Store.commitToolResult prepared.conversationId prepared.runId round.id result
        frame.store = .ok (committed, store)) :
      Steps prepared round frame (receive locals) (.receive (.toolResult result))
        { store
          port := { frame.port with commands := rest }
          checkpoint := committed.checkpointId
          accounted := result.callId :: frame.accounted }
        (.onward (reported (locals.complete result.callId) committed.settled))
  | refuse (locals : RoundLocals) {result : ToolResult} {rest : List RunCommand} {event : Event}
      {failure : RunFailure} (queue : frame.port.commands = .toolResult result :: rest)
      (fresh : result.callId ∉ locals.completed)
      (cause : event = .receive (.toolResult result) ∨ event.command? = none) :
      Steps prepared round frame (receive locals) event
        { frame with port := { frame.port with commands := rest } } (.stopped (.failed failure))
  | broken (locals : RoundLocals) {batch : MessageBatch} {rest : List RunCommand}
      (queue : frame.port.commands = .breakMessages batch :: rest) :
      Steps prepared round frame (receive locals) (.receive (.breakMessages batch))
        { frame with port := { frame.port with commands := rest } }
        (.onward (leave round locals interruptedReason [batch]))
  | insert (locals : RoundLocals) {batch : MessageBatch} {rest : List RunCommand}
      (queue : frame.port.commands = .insertMessages batch :: rest) :
      Steps prepared round frame (receive locals) (.receive (.insertMessages batch))
        { frame with port := { frame.port with commands := rest } }
        (.onward (receive (locals.insert batch)))
  | cancel (locals : RoundLocals) {rest : List RunCommand}
      (queue : frame.port.commands = .cancel :: rest) :
      Steps prepared round frame (receive locals) (.receive .cancel)
        { frame with port := { frame.port with commands := rest } } (.stopped .cancelled)
  | settle (locals : RoundLocals) (settled : Bool) (none : locals.remaining = 0) :
      Steps prepared round frame (reported locals settled) .proceed frame
        (.onward (leave round locals interruptedReason []))
  | resume (locals : RoundLocals) (settled : Bool) :
      Steps prepared round frame (reported locals settled) .proceed frame (.onward (receive locals))
  | complete (reason : String) (batches : List MessageBatch) :
      Steps prepared round frame (interrupt [] reason batches) .proceed frame
        (.onward (append (.next batches false)))
  | interrupt (call : ToolCall) (todo : List ToolCall) (reason : String)
      (batches : List MessageBatch) {committed : ToolCommit} {store : Store D}
      (ran : Store.commitToolResult prepared.conversationId prepared.runId round.id
        (interruptedResult reason call) frame.store = .ok (committed, store)) :
      Steps prepared round frame (interrupt (call :: todo) reason batches) .proceed
        { frame with
          store
          checkpoint := committed.checkpointId
          accounted := call.callId :: frame.accounted }
        (.onward (interrupted todo reason committed.settled batches))
  | interrupted (todo : List ToolCall) (reason : String) (settled : Bool)
      (batches : List MessageBatch) :
      Steps prepared round frame (interrupted todo reason settled batches) .proceed frame
        (.onward (interrupt todo reason batches))
  | append {pc : AppendPc} {event : Event} {next : Frame D} {progress : Progress AppendPc Bool}
      (inner : pc.Steps prepared frame event next progress) :
      Steps prepared round frame (append pc) event next (ofAppend progress)
  | stop (pc : RoundPc) (event : Event) (outcome : RunOutcome) (quiet : event.command? = none) :
      Steps prepared round frame pc event frame (.stopped outcome)

section Steps

variable {prepared : PreparedRun} {nowMs : Int} {round : ToolRound} {frame next : Frame D}
  {event : Event} {progress : Progress RoundPc Unit}

theorem steps_receive {locals : RoundLocals}
    (stepped : (receive locals).step prepared nowMs round frame event = some (next, progress)) :
    Steps prepared round frame (receive locals) event next progress := by
  cases event with
  | receive command =>
    obtain ⟨popped, received, done⟩ := Option.map_eq_some_iff.mp stepped
    obtain ⟨rest, queue, rfl⟩ := Frame.receive_eq_some.mp received
    cases command with
    | toolResult result =>
      simp only [onCommand] at done
      split at done
      · rename_i known
        cases done
        exact .ignore locals queue known
      · rename_i fresh
        simp only [Frame.commitToolResult] at done
        split at done
        · rename_i settled committed
          split at committed
          · rename_i ran
            cases committed
            cases done
            exact .report locals queue fresh ran
          · cases committed
        · rename_i outcome committed
          split at committed
          · cases committed
          · cases committed
            cases done
            exact .refuse locals queue fresh (.inl rfl)
    | insertMessages batch =>
      cases done
      exact .insert locals queue
    | breakMessages batch =>
      cases done
      exact .broken locals queue
    | cancel =>
      cases done
      exact .cancel locals queue
  | storeFailed error =>
    simp only [step, onStoreFailure] at stepped
    split at stepped
    · rename_i result rest queue
      split at stepped
      · cases stepped
      · rename_i fresh
        obtain ⟨popped, received, done⟩ := Option.map_eq_some_iff.mp stepped
        obtain ⟨rest', queue', rfl⟩ := Frame.receive_eq_some.mp received
        cases done
        exact .refuse locals queue' fresh (.inr rfl)
    · cases stepped
  | elapsed =>
    cases stepped
    exact .elapse locals
  | disconnected =>
    simp only [step, Option.ite_none_right_eq_some] at stepped
    cases stepped.2
    exact .stop _ _ _ rfl
  | cancelled =>
    simp only [step, Option.ite_none_right_eq_some] at stepped
    cases stepped.2
    exact .stop _ _ _ rfl
  | _ => cases stepped

theorem steps {pc : RoundPc}
    (stepped : pc.step prepared nowMs round frame event = some (next, progress)) :
    Steps prepared round frame pc event next progress := by
  cases pc with
  | create insertions =>
    cases event <;> try cases stepped
    · simp only [step] at stepped
      split at stepped
      · rename_i ran
        cases stepped
        exact .create insertions ran
      · cases stepped
        exact .stop _ _ _ rfl
    · exact .stop _ _ _ rfl
  | announce insertions =>
    obtain ⟨rfl, ⟨rfl, rfl⟩ | ⟨outcome, quiet, rfl⟩⟩ := Frame.announced_cases stepped
    · exact .announce insertions
    · exact .stop _ _ _ quiet
  | receive locals => exact steps_receive stepped
  | reported locals settled =>
    obtain ⟨rfl, ⟨rfl, rfl⟩ | ⟨outcome, quiet, rfl⟩⟩ := Frame.announced_cases stepped
    · split
      · rename_i none
        exact .settle locals settled none
      · exact .resume locals settled
    · exact .stop _ _ _ quiet
  | interrupt todo reason batches =>
    cases todo with
    | nil =>
      cases event <;> cases stepped
      exact .complete reason batches
    | cons call todo =>
      cases event <;> try cases stepped
      · simp only [step, Frame.commitToolResult] at stepped
        split at stepped
        · rename_i settled committed
          split at committed
          · rename_i ran
            cases committed
            cases stepped
            exact .interrupt call todo reason batches ran
          · cases committed
        · cases stepped
          exact .stop _ _ _ rfl
      · exact .stop _ _ _ rfl
  | interrupted todo reason settled batches =>
    obtain ⟨rfl, ⟨rfl, rfl⟩ | ⟨outcome, quiet, rfl⟩⟩ := Frame.announced_cases stepped
    · exact .interrupted todo reason settled batches
    · exact .stop _ _ _ quiet
  | append pc =>
    simp only [step, Option.map_eq_some_iff] at stepped
    obtain ⟨⟨last, inner⟩, stepped, equal⟩ := stepped
    cases equal
    exact .append (AppendPc.steps stepped)

theorem Steps.queue {pc : RoundPc} (steps : Steps prepared round frame pc event next progress) :
    (∀ command ∈ event.command?, command.batch?.toList ⊆ frame.port.queued) ∧
      next.port.queued ⊆ frame.port.queued := by
  have popped : ∀ {command : RunCommand} {rest : List RunCommand},
      frame.port.commands = command :: rest →
      (∀ first ∈ some command, first.batch?.toList ⊆ frame.port.queued) ∧
        ({ frame.port with commands := rest } : RunPort).queued ⊆ frame.port.queued := by
    intro command rest queue
    rw [RunPort.queued_receive queue]
    refine ⟨fun first same => ?_, List.subset_append_right _ _⟩
    obtain rfl := Option.some.inj same
    exact List.subset_append_left _ _
  have quiet : event.command? = none → ∀ command ∈ event.command?,
      command.batch?.toList ⊆ frame.port.queued := by
    intro none command member
    rw [none] at member
    cases member
  cases steps with
  | ignore locals queue => exact popped queue
  | report locals queue => exact popped queue
  | broken locals queue => exact popped queue
  | insert locals queue => exact popped queue
  | cancel locals queue => exact popped queue
  | refuse locals queue fresh cause =>
    rcases cause with rfl | none
    · exact popped queue
    · exact ⟨quiet none, (popped queue).2⟩
  | stop pc event outcome none => exact ⟨quiet none, List.Subset.refl _⟩
  | append steps =>
    refine ⟨quiet steps.quiet, ?_⟩
    cases steps <;> exact List.Subset.refl _
  | _ => exact ⟨quiet rfl, List.Subset.refl _⟩

end Steps

end RoundPc

end Byok
