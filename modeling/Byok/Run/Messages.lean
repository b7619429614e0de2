/-
**Appending batches of messages.** `server/src/run/messages.rs`.

`append_batches` commits one batch after the other and answers each when its messages are on the chain
of the run. The identities of the chain are read before the write lock is taken, so a batch is
committed in two steps (`next`, `commit`), between which others use the store.
-/

import Byok.Run.Handle
import Byok.Store.Runs

namespace Byok

open Library

variable {D : Type}

/-- What the code of a run works on: the store, the port, its `checkpoint`, and the call ids that
already have a committed result, `accounted_tool_results`. -/
structure Frame (D : Type) where
  store : Store D
  port : RunPort
  checkpoint : CheckpointId
  accounted : List String

/-- What an `await` comes back with. `proceed` stands for the expected answer. -/
inductive Event where
  | proceed
  | receive (command : RunCommand)
  | disconnected
  | cancelled
  | elapsed
  | clientClosed
  | stateNotReady (error : String)
  | storeFailed (error : Error)
deriving DecidableEq, Repr

/-- The command that an event takes from the queue. -/
@[simp]
def Event.command? : Event → Option RunCommand
  | receive command => some command
  | proceed | disconnected | cancelled | elapsed => none
  | clientClosed | stateNotReady _ | storeFailed _ => none

/-- Where a function of the run is after a step: further on in its body, back with a value, or back
with an outcome that ends the run. -/
inductive Progress (pc ρ : Type) where
  | onward (pc : pc)
  | returned (value : ρ)
  | stopped (outcome : RunOutcome)
deriving DecidableEq, Repr

namespace Frame

/-- The messages on the chain of the run. -/
def chain (frame : Frame D) : List CanonicalMessage :=
  frame.store.loadCheckpointMessages frame.checkpoint

/-- `commands.recv` when it yields `command`. -/
def receive (frame : Frame D) (command : RunCommand) : Option (Frame D) :=
  (frame.port.receive command).map fun port => { frame with port }

/-- `emit` and `wait_for_state_ready` when they fail: the client is gone, the state could not be
built, or the run is cancelled while it waits. -/
def interruption (frame : Frame D) (awaitsState : Bool) : Event → Option RunOutcome
  | .clientClosed => some clientFailure
  | .stateNotReady error => if awaitsState then some (.failed (.client error)) else none
  | .cancelled => if awaitsState ∧ frame.port.cancelled then some .cancelled else none
  | _ => none

/-- `emit`, and `wait_for_state_ready` where the event has a barrier: the code goes on to `after`
unless it is stopped. -/
def announced {pc ρ : Type} (frame : Frame D) (awaitsState : Bool) (after : Progress pc ρ)
    (event : Event) : Option (Frame D × Progress pc ρ) :=
  if event = .proceed then some (frame, after)
  else (frame.interruption awaitsState event).map fun outcome => (frame, .stopped outcome)

section Laws

variable {frame next : Frame D} {event : Event}

theorem receive_eq_some {command : RunCommand} :
    frame.receive command = some next ↔ ∃ rest, frame.port.commands = command :: rest ∧
      next = { frame with port := { frame.port with commands := rest } } := by
  rw [Frame.receive, Option.map_eq_some_iff]
  constructor
  · rintro ⟨port, received, rfl⟩
    obtain ⟨rest, queue, rfl⟩ := RunPort.receive_eq_some.mp received
    exact ⟨rest, queue, rfl⟩
  · rintro ⟨rest, queue, rfl⟩
    exact ⟨_, RunPort.receive_eq_some.mpr ⟨rest, queue, rfl⟩, rfl⟩

theorem interruption_quiet {awaitsState : Bool} {outcome : RunOutcome}
    (interrupted : frame.interruption awaitsState event = some outcome) : event.command? = none := by
  cases event <;> first | rfl | cases interrupted

theorem announced_cases {pc ρ : Type} {awaitsState : Bool} {after progress : Progress pc ρ}
    (announced : frame.announced awaitsState after event = some (next, progress)) :
    next = frame ∧ ((event = .proceed ∧ progress = after) ∨
      ∃ outcome, event.command? = none ∧ progress = .stopped outcome) := by
  unfold Frame.announced at announced
  split at announced
  · rename_i proceeds
    cases announced
    exact ⟨rfl, .inl ⟨proceeds, rfl⟩⟩
  · obtain ⟨outcome, interrupted, equal⟩ := Option.map_eq_some_iff.mp announced
    cases equal
    exact ⟨rfl, .inr ⟨outcome, interruption_quiet interrupted, rfl⟩⟩

end Laws

end Frame

variable [DecidableEq D] [ChainHash D]

/-- Where `append_batches` is. `inserted` is its `inserted_any`. -/
inductive AppendPc where
  | next (todo : List MessageBatch) (inserted : Bool)
  | commit (batch : MessageBatch) (todo : List MessageBatch) (inserted : Bool)
      (known : List ChainIdentity)
  | deliver (batch : MessageBatch) (todo : List MessageBatch) (inserted batchInserted : Bool)
deriving DecidableEq, Repr

namespace AppendPc

/-- The batches that are not answered yet. -/
def held : AppendPc → List MessageBatch
  | next todo _ => todo
  | commit batch todo _ _ => batch :: todo
  | deliver batch todo _ _ => batch :: todo

/-- A step of `append_batches`. -/
def step (prepared : PreparedRun) (frame : Frame D) :
    AppendPc → Event → Option (Frame D × Progress AppendPc Bool)
  | next [] inserted, .proceed => some (frame, .returned inserted)
  | next (first :: todo) inserted, .proceed =>
    if first.messages.any (·.runtimeEventId.isNone) then
      some (frame, .stopped (.failed (.protocol "runtime message has no event identity")))
    else
      let known := frame.store.chainIdentities prepared.conversationId frame.checkpoint
      some (frame, .onward (commit first todo inserted known))
  | commit first todo inserted known, .proceed =>
    match Store.appendMessagesOnce prepared.conversationId prepared.runId frame.checkpoint known
        first.messages frame.store with
    | .ok (appended, store) =>
      let checkpoint := (appended.getLast?.map (·.1)).getD frame.checkpoint
      some ({ frame with store, checkpoint },
        .onward (deliver first todo inserted (appended.any (·.2))))
    | .error error => some (frame, .stopped (.failed error.failure))
  | commit _ _ _ _, .storeFailed error => some (frame, .stopped (.failed error.failure))
  | deliver first todo inserted batchInserted, .proceed =>
    let result := if batchInserted then .applied else .duplicate
    some ({ frame with port := frame.port.deliver first result frame.checkpoint },
      .onward (next todo (inserted || batchInserted)))
  | deliver _ _ _ batchInserted, event =>
    -- only a batch that inserted something is announced and waits for the state
    if batchInserted then
      (frame.interruption true event).map fun outcome => (frame, .stopped outcome)
    else none
  | _, _ => none

end AppendPc

/-- What a step of `append_batches` can be. -/
inductive AppendPc.Steps (prepared : PreparedRun) (frame : Frame D) :
    AppendPc → Event → Frame D → Progress AppendPc Bool → Prop
  | back (inserted : Bool) : Steps prepared frame (.next [] inserted) .proceed frame (.returned inserted)
  | look (first : MessageBatch) (todo : List MessageBatch) (inserted : Bool) :
      Steps prepared frame (.next (first :: todo) inserted) .proceed frame
        (.onward (.commit first todo inserted
          (frame.store.chainIdentities prepared.conversationId frame.checkpoint)))
  | commit (first : MessageBatch) (todo : List MessageBatch) (inserted : Bool)
      {known : List ChainIdentity} {appended : List (CheckpointId × Bool)} {store : Store D}
      (ran : Store.appendMessagesOnce prepared.conversationId prepared.runId frame.checkpoint known
        first.messages frame.store = .ok (appended, store)) :
      Steps prepared frame (.commit first todo inserted known) .proceed
        { frame with store, checkpoint := (appended.getLast?.map (·.1)).getD frame.checkpoint }
        (.onward (.deliver first todo inserted (appended.any (·.2))))
  | deliver (first : MessageBatch) (todo : List MessageBatch) (inserted batchInserted : Bool) :
      Steps prepared frame (.deliver first todo inserted batchInserted) .proceed
        { frame with
          port := frame.port.deliver first (if batchInserted then .applied else .duplicate)
            frame.checkpoint }
        (.onward (.next todo (inserted || batchInserted)))
  | stop (pc : AppendPc) (event : Event) (outcome : RunOutcome) (quiet : event.command? = none) :
      Steps prepared frame pc event frame (.stopped outcome)

theorem AppendPc.steps {prepared : PreparedRun} {frame next : Frame D} {pc : AppendPc} {event : Event}
    {progress : Progress AppendPc Bool} (stepped : pc.step prepared frame event = some (next, progress)) :
    Steps prepared frame pc event next progress := by
  rcases pc with ⟨todo, inserted⟩ | ⟨first, todo, inserted, known⟩ | ⟨first, todo, inserted, flag⟩
  · cases todo with
    | nil => cases event <;> cases stepped; exact .back inserted
    | cons first todo =>
      cases event <;> try cases stepped
      rw [step] at stepped
      split at stepped
      · cases stepped
        exact .stop _ _ _ rfl
      · cases stepped
        exact .look first todo inserted
  · cases event <;> try cases stepped
    · rw [step] at stepped
      split at stepped
      · rename_i ran
        cases stepped
        exact .commit first todo inserted ran
      · cases stepped
        exact .stop _ _ _ rfl
    · exact .stop _ _ _ rfl
  · cases event with
    | proceed =>
      cases stepped
      exact .deliver first todo inserted flag
    | _ =>
      simp only [step, Option.ite_none_right_eq_some, Option.map_eq_some_iff, Prod.mk.injEq] at stepped
      obtain ⟨-, outcome, failed, rfl, rfl⟩ := stepped
      first | exact .stop _ _ _ rfl | cases failed

theorem AppendPc.Steps.quiet {prepared : PreparedRun} {frame next : Frame D} {pc : AppendPc}
    {event : Event} {progress : Progress AppendPc Bool}
    (steps : Steps prepared frame pc event next progress) : event.command? = none := by
  cases steps <;> first | rfl | assumption

/-- `drain_accepted`, one `try_recv` at a time: the batches taken so far and what comes next. -/
def drainAccepted (frame : Frame D) (accepted : List MessageBatch) :
    Event → Option (Frame D × Progress (List MessageBatch) (List MessageBatch))
  | .proceed => if frame.port.commands = [] then some (frame, .returned accepted) else none
  | .disconnected =>
    if frame.port.commands = [] then some (frame, .stopped clientFailure) else none
  | .receive command => do
    let next ← frame.receive command
    some (next, match command with
      | .insertMessages batch | .breakMessages batch => .onward (accepted ++ [batch])
      | .cancel => .stopped .cancelled
      | .toolResult _ => .onward accepted)
  | _ => none

end Byok
