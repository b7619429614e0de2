/-
**The handle of a run and its port.**

`server/src/run/handle.rs`, `port.rs`, `command.rs`, `event.rs`. A handle puts commands into the queue
of its run as long as the run is in phase `running`; the run takes them out at its port. Phase and
queue change under one lock, so a submission and a change of phase never overlap.

A message batch carries the sender of a oneshot channel. Here it carries a ticket, and the port keeps
what was sent for it.
-/

import Byok.Model.Message

namespace Byok

inductive RunPhase where
  | running
  | finalizing
  | ended
deriving DecidableEq, Repr

inductive CommandResult where
  | applied
  | duplicate
  | runClosing
  | runEnded
  | suppressed
  | staleTarget
deriving DecidableEq, Repr

/-- `MessageBatch`. The ticket stands for the channel of `result`. -/
structure MessageBatch where
  eventId : String
  messages : List CanonicalMessage
  ticket : Nat
deriving DecidableEq, Repr

inductive RunCommand where
  | toolResult (result : ToolResult)
  | insertMessages (batch : MessageBatch)
  | breakMessages (batch : MessageBatch)
  | cancel
deriving DecidableEq, Repr

/-- The batch that a command brings. -/
def RunCommand.batch? : RunCommand → Option MessageBatch
  | insertMessages batch | breakMessages batch => some batch
  | toolResult _ | cancel => none

inductive RunFailure where
  | protocol (message : String)
  | provider (message : String)
  | truncated (message : String)
  | store (message : String)
  | client (message : String)
deriving DecidableEq, Repr

inductive RunOutcome where
  | completed
  | cancelled
  | failed (failure : RunFailure)
deriving DecidableEq, Repr

/-- `From<Error> for RunFailure`. The texts of `sqlx` and `serde_json` errors are theirs. -/
def Error.failure : Error → RunFailure
  | .protocol message => .protocol message
  | .store message => .store message
  | .runNotFound runId => .store ("run not found: " ++ runId)
  | .database => .store "database error"
  | .json => .protocol "json error"

def clientFailure : RunOutcome := .failed (.client "client event channel closed")

/-! ### The port -/

/-- A result that was sent for a batch, and the head of the run at that time. -/
structure Delivery where
  batch : MessageBatch
  result : CommandResult
  head : CheckpointId
deriving DecidableEq, Repr

/-- `RunPort` and what its handles share with it. `cancelled` is the cancellation token, `dropped`
says that the receiver is gone; `enqueued` remembers every batch that a handle put into the queue. -/
structure RunPort where
  phase : RunPhase
  commands : List RunCommand
  dropped : Bool
  cancelled : Bool
  enqueued : List MessageBatch
  delivered : List Delivery
deriving DecidableEq, Repr

namespace RunPort

/-- `channel`. -/
def new : RunPort := ⟨.running, [], false, false, [], []⟩

def beginFinalizing (port : RunPort) : RunPort :=
  if port.phase = .running then { port with phase := .finalizing } else port

def resumeRunning (port : RunPort) : RunPort :=
  if port.phase = .finalizing then { port with phase := .running } else port

/-- `RunPhaseControl::finish`, and the end of the task that owns the port. -/
def finish (port : RunPort) : RunPort :=
  { port with phase := .ended, commands := [], dropped := true }

/-- `commands.send`. -/
def send (port : RunPort) (command : RunCommand) : Option RunPort :=
  if port.dropped then none else some { port with commands := port.commands ++ [command] }

/-- `commands.recv` when it yields `command`. -/
def receive (port : RunPort) (command : RunCommand) : Option RunPort :=
  match port.commands with
  | [] => none
  | first :: rest => if first = command then some { port with commands := rest } else none

/-- `batch.result.send`. -/
def deliver (port : RunPort) (batch : MessageBatch) (result : CommandResult) (head : CheckpointId) :
    RunPort :=
  { port with delivered := port.delivered ++ [⟨batch, result, head⟩] }

/-- The batches in the queue. -/
def queued (port : RunPort) : List MessageBatch := port.commands.filterMap RunCommand.batch?

/-! ### The handle -/

/-- `RunHandle::submit_messages` up to its `await`: the result of the send, and the port after it.
`applied` means that the batch is in the queue and its result is awaited. -/
def submitMessages (eventId : String) (messages : List CanonicalMessage) (shouldBreak : Bool)
    (port : RunPort) : CommandResult × RunPort :=
  let batch : MessageBatch := ⟨eventId, messages, port.enqueued.length⟩
  let command := if shouldBreak then .breakMessages batch else .insertMessages batch
  match port.phase with
  | .running =>
    match port.send command with
    | some port => (.applied, { port with enqueued := port.enqueued ++ [batch] })
    | none => (.runEnded, port)
  | .ended => (.runEnded, port)
  | .finalizing => (.runClosing, port)

/-- The rest of `RunHandle::submit_messages`: what the submission of `batch` returns, once it does.
`held` are the batches that the run has in its hands; a sender that is nowhere any more was dropped. -/
def awaited (port : RunPort) (held : List MessageBatch) (batch : MessageBatch) :
    Option CommandResult :=
  match port.delivered.find? fun delivery => delivery.batch = batch with
  | some delivery => some delivery.result
  | none =>
    if batch ∈ port.queued ++ held then none
    else some <| match port.phase with
      | .running => .runEnded
      | .finalizing => .runClosing
      | .ended => .runEnded

def toolResult (result : ToolResult) (port : RunPort) : CommandResult × RunPort :=
  match port.phase with
  | .running =>
    match port.send (.toolResult result) with
    | some port => (.applied, port)
    | none => (.runEnded, port)
  | .ended => (.runEnded, port)
  | .finalizing => (.runClosing, port)

/-- `RunHandle::cancel`. The token is set in every phase. -/
def cancel (port : RunPort) : RunPort :=
  let port := { port with cancelled := true }
  (port.send .cancel).getD port

/-! ### Laws -/

theorem receive_eq_some {port next : RunPort} {command : RunCommand} :
    port.receive command = some next ↔
      ∃ rest, port.commands = command :: rest ∧ next = { port with commands := rest } := by
  unfold receive
  cases port.commands with
  | nil => simp
  | cons first rest =>
    by_cases same : first = command
    · subst same
      simp [eq_comm]
    · simp [same]

theorem submitMessages_cases (port : RunPort) (eventId : String) (messages : List CanonicalMessage)
    (shouldBreak : Bool) :
    (∃ result, (result = .runClosing ∨ result = .runEnded) ∧
      port.submitMessages eventId messages shouldBreak = (result, port)) ∨
    ∃ batch command, batch.messages = messages ∧ command.batch? = some batch ∧
      port.phase = .running ∧ port.submitMessages eventId messages shouldBreak = (.applied,
        { port with commands := port.commands ++ [command], enqueued := port.enqueued ++ [batch] }) := by
  unfold submitMessages
  cases phase : port.phase with
  | running =>
    by_cases dropped : port.dropped = true
    · exact .inl ⟨.runEnded, .inr rfl, by simp [send, dropped]⟩
    · let batch : MessageBatch := ⟨eventId, messages, port.enqueued.length⟩
      refine .inr ⟨batch, if shouldBreak then .breakMessages batch else .insertMessages batch, rfl,
        ?_, rfl, ?_⟩
      · split <;> rfl
      · simp [send, dropped, batch, phase]
  | finalizing => exact .inl ⟨.runClosing, .inl rfl, rfl⟩
  | ended => exact .inl ⟨.runEnded, .inr rfl, rfl⟩

theorem submitMessages_closed {port : RunPort} (closed : port.phase ≠ .running) (eventId : String)
    (messages : List CanonicalMessage) (shouldBreak : Bool) :
    ∃ result, (result = .runClosing ∨ result = .runEnded) ∧
      port.submitMessages eventId messages shouldBreak = (result, port) := by
  rcases submitMessages_cases port eventId messages shouldBreak with refused | ⟨_, _, _, _, phase, _⟩
  · exact refused
  · exact absurd phase closed

theorem toolResult_cases (port : RunPort) (result : ToolResult) :
    (port.toolResult result).2 = port ∨
      (port.toolResult result).2 = { port with commands := port.commands ++ [.toolResult result] } := by
  unfold toolResult send
  split
  · split
    · rename_i sent
      simp only [Option.ite_none_left_eq_some, Option.some.injEq] at sent
      exact .inr sent.2.symm
    · exact .inl rfl
  · exact .inl rfl
  · exact .inl rfl

theorem cancel_eq (port : RunPort) : port.cancel =
    { port with
      cancelled := true
      commands := port.commands ++ if port.dropped then [] else [.cancel] } := by
  unfold cancel send
  by_cases dropped : port.dropped = true <;> simp [dropped]

theorem queued_send (port : RunPort) (command : RunCommand) :
    ({ port with commands := port.commands ++ [command] } : RunPort).queued =
      port.queued ++ command.batch?.toList := by
  rw [queued, List.filterMap_append]
  cases batch : command.batch? <;> simp [queued, batch]

theorem queued_receive {port : RunPort} {command : RunCommand} {rest : List RunCommand}
    (queue : port.commands = command :: rest) :
    port.queued = command.batch?.toList ++ rest.filterMap RunCommand.batch? := by
  rw [queued, queue]
  cases batch : command.batch? <;> simp [batch]

theorem queued_toolResult (port : RunPort) (result : ToolResult) :
    (port.toolResult result).2.queued = port.queued := by
  rcases toolResult_cases port result with same | sent
  · rw [same]
  · rw [sent, queued_send]
    simp [RunCommand.batch?]

theorem queued_cancel (port : RunPort) : port.cancel.queued = port.queued := by
  rw [cancel_eq]
  by_cases dropped : port.dropped = true <;> simp [queued, dropped, RunCommand.batch?]

end RunPort

end Byok
