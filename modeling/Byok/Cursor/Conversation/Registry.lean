/-
**The registry of conversations.** `server/src/cursor/conversation/registry.rs`, `pending.rs`, and what
`spawn_run_request` of `runtime.rs` does with them.

A message goes to the active run of its conversation; when there is none, or when it closes, the message waits in the
pending list until the next run takes it. The list, the map of active runs and the phase of a run have a lock each, and
between two sections of a call others may go on.

* `PendingMessages`, `ConversationRegistry` — the maps and their operations.
* `appendOnce` — what `append_messages_once` inserts below a chain.
* `Hub` — the registry, the calls of `deliver`, the runs and the chains, with `hubs`, their steps in any order.

Runs are numbered in the order of their generations, in place of their ids, which are fresh. The marks of stopped
conversations, which only `deliver_wake` reads, are left out.
-/

import Byok.Run.Handle
import Byok.Library.Gather
import Byok.Library.System
import Byok.Store.NewMessages
import Mathlib.Data.List.MinMax

namespace Byok.Cursor.Conversation

open Library

/-! ### Messages that wait -/

def maxPendingMessages : Nat := 256

def maxPendingConversations : Nat := 64

inductive MessageDelivery where
  | ignore
  | insertMessages
  | breakMessages
deriving DecidableEq, Repr

structure CompiledMessages where
  eventId : String
  targetRunId : Option Nat
  messages : List CanonicalMessage
  delivery : MessageDelivery
deriving DecidableEq, Repr

/-- A message that waits, and the call of `deliver` that has queued it. -/
structure Waiting where
  compiled : CompiledMessages
  call : Nat
deriving DecidableEq, Repr

structure PendingMessages where
  queued : List Waiting
  eventIds : List String
deriving DecidableEq, Repr

namespace PendingMessages

/-- `PendingMessages::default`. -/
def new : PendingMessages := ⟨[], []⟩

/-- The loop of `push`. -/
def dropOldest : List Waiting → List String → PendingMessages
  | [], eventIds => ⟨[], eventIds⟩
  | first :: rest, eventIds =>
    if maxPendingMessages < (first :: rest).length then dropOldest rest (eventIds.erase first.compiled.eventId)
    else ⟨first :: rest, eventIds⟩

def push (pending : PendingMessages) (messages : Waiting) : Bool × PendingMessages :=
  if messages.compiled.eventId ∈ pending.eventIds then (false, pending)
  else (true, dropOldest (pending.queued ++ [messages]) (pending.eventIds ++ [messages.compiled.eventId]))

end PendingMessages

/-! ### The registry -/

/-- Where a call of `deliver` is. One that is `queued` has returned its result, `RunClosing` or `RunEnded`, and `entry`
is the call that had queued the message with its event id. -/
inductive CallState where
  | submitting (run : Nat)
  | awaiting (run : Nat) (batch : MessageBatch)
  | queueing (result : CommandResult)
  | queued (result : CommandResult) (entry : Nat)
  | returned (result : CommandResult)
deriving DecidableEq, Repr

/-- A call of `deliver`. -/
structure Call where
  conversation : ConversationId
  compiled : CompiledMessages
  state : CallState
deriving DecidableEq, Repr

/-- `ConversationRegistry`. The instant of an entry of `pending` is when its first message was queued. -/
structure ConversationRegistry where
  current : Table ConversationId Nat
  pending : Table ConversationId (Nat × PendingMessages)

namespace ConversationRegistry

def new : ConversationRegistry := ⟨∅, ∅⟩

/-- The conversation that has waited longest. -/
def oldest (registry : ConversationRegistry) : Option ConversationId :=
  (registry.pending.entries.argmin fun entry => entry.2.1).map Sigma.fst

/-- `queue_pending` makes room for another conversation. -/
def roomFor (registry : ConversationRegistry) (conversation : ConversationId) : Table ConversationId (Nat × PendingMessages) :=
  if (registry.pending.lookup conversation).isNone ∧ maxPendingConversations ≤ registry.pending.entries.length then
    match registry.oldest with
    | some oldest => registry.pending.erase oldest
    | none => registry.pending
  else registry.pending

def queuePending (registry : ConversationRegistry) (conversation : ConversationId) (now : Nat) (messages : Waiting) :
    ConversationRegistry :=
  let pending := registry.roomFor conversation
  let (queuedAt, waiting) := (pending.lookup conversation).getD (now, .new)
  { registry with pending := pending.insert conversation (queuedAt, (waiting.push messages).2) }

/-- The first section of `deliver`. -/
def deliver (registry : ConversationRegistry) (conversation : ConversationId) (compiled : CompiledMessages) : CallState :=
  if compiled.delivery = .ignore then .returned .applied
  else
    match registry.current.lookup conversation with
    | none => .queueing .runEnded
    | some run => if compiled.targetRunId.any (· != run) then .returned .staleTarget else .submitting run

def takePending (registry : ConversationRegistry) (conversation : ConversationId) : List Waiting × ConversationRegistry :=
  match registry.pending.lookup conversation with
  | some (_, messages) => (messages.queued, { registry with pending := registry.pending.erase conversation })
  | none => ([], registry)

/-- `activate`: the run that it cancels, and the registry after it. -/
def activate (registry : ConversationRegistry) (conversation : ConversationId) (run : Nat) :
    Option Nat × ConversationRegistry :=
  ((registry.current.lookup conversation).filter (· != run),
    { registry with current := registry.current.insert conversation run })

def release (registry : ConversationRegistry) (conversation : ConversationId) (run : Nat) : ConversationRegistry :=
  if registry.current.lookup conversation = some run then
    { registry with current := registry.current.erase conversation }
  else registry

/-- The call that has queued the message with an event id. -/
def entryFor (registry : ConversationRegistry) (conversation : ConversationId) (eventId : String) : Option Nat :=
  (registry.pending.lookup conversation).bind fun entry =>
    (entry.2.queued.find? fun waiting => waiting.compiled.eventId = eventId).map Waiting.call

end ConversationRegistry

/-! ### Runs -/

/-- Where the task of a run is: it compiles, has taken the pending messages, has activated its run, has claimed the
conversation, has appended its first messages, or has finished; then it is released. -/
inductive RunStage where
  | compiling
  | taken
  | active
  | claimed
  | running
  | finished
  | released
deriving DecidableEq, Repr

/-- A run: its task with the messages that it has taken and not committed, its port, and the batches in the hands of its
engine. `background` runs are for a background completion. -/
structure ConversationRun where
  conversation : ConversationId
  background : Bool
  stage : RunStage
  taken : List Waiting
  port : RunPort
  held : List MessageBatch
deriving DecidableEq

namespace ConversationRun

/-- The task of a run begins. -/
def begins (conversation : ConversationId) (background : Bool) : ConversationRun :=
  ⟨conversation, background, .compiling, [], .new, []⟩

/-- The messages that it has taken, each with the call that has queued it. -/
def firsts (run : ConversationRun) : List (Nat × CanonicalMessage) :=
  run.taken.flatMap fun waiting => waiting.compiled.messages.map (waiting.call, ·)

/-- The engine returns, and what is not committed is gone. -/
def finish (run : ConversationRun) : ConversationRun :=
  { run with stage := .finished, taken := [], port := run.port.finish, held := [] }

/-- The engine answers a batch, or drops it. The head that the port remembers is not read here. -/
def answer (run : ConversationRun) (batch : MessageBatch) (result : Option CommandResult) : ConversationRun :=
  { run with
    held := run.held.erase batch
    port := match result with
      | some result => run.port.deliver batch result ⟨0⟩
      | none => run.port }

end ConversationRun

/-- What others and the engine do with a port, apart from the batches. -/
inductive PortMove (port : RunPort) : RunPort → Prop
  | finalizes : PortMove port port.beginFinalizing
  | resumes : PortMove port port.resumeRunning
  | cancels : PortMove port port.cancel
  | toolResult (result : ToolResult) : PortMove port (port.toolResult result).2
  | receives {command : RunCommand} {next : RunPort} (received : port.receive command = some next)
    (other : command.batch? = none) : PortMove port next

/-! ### Chains -/

/-- `append_messages_once` on the messages of a chain: what it inserts, or nothing when it fails. A message whose id or
runtime event is on the chain, or was inserted before it, is left out, and fails when its content is another. -/
def appendOnce : List CanonicalMessage → List (Nat × CanonicalMessage) → Option (List (Nat × CanonicalMessage))
  | _, [] => some []
  | chain, (call, message) :: rest =>
    match chain.find? fun known => (Store.chainIdentity known).matches message with
    | some stored => if stored = message then appendOnce chain rest else none
    | none => (appendOnce (chain ++ [message]) rest).map ((call, message) :: ·)

/-! ### Steps -/

/-- The registry, the calls of `deliver`, and the runs. `chains` are the messages on the chain of the checkpoint that
each conversation is at, `stored` all that have been on it. `committed` are the messages of calls that a run has
inserted, each with its call and the run. -/
structure Hub where
  registry : ConversationRegistry
  calls : List Call
  runs : List ConversationRun
  chains : ConversationId → List CanonicalMessage
  stored : List (ConversationId × CanonicalMessage)
  committed : List (Nat × Nat × CanonicalMessage)

namespace Hub

def new : Hub := ⟨.new, [], [], fun _ => [], [], []⟩

/-- What a step is. -/
inductive Label where
  | queues (call : Nat)
  | givesUp (run : Nat)
  | commits (run count : Nat)
  | other
deriving DecidableEq

/-- A call goes on. -/
def call (hub : Hub) (index : Nat) (call : Call) (state : CallState) : Hub :=
  { hub with calls := hub.calls.set index { call with state := state } }

/-- A run goes on. -/
def run (hub : Hub) (index : Nat) (run : ConversationRun) : Hub := { hub with runs := hub.runs.set index run }

/-- `submit_messages` up to its `await`. -/
def submit (hub : Hub) (index : Nat) (call : Call) (runIndex : Nat) (run : ConversationRun) : Hub :=
  let shouldBreak : Bool := call.compiled.delivery = .breakMessages
  match run.port.submitMessages call.compiled.eventId call.compiled.messages shouldBreak with
  | (.applied, port) =>
    (hub.run runIndex { run with port := port }).call index call
      (.awaiting runIndex ⟨call.compiled.eventId, call.compiled.messages, run.port.enqueued.length⟩)
  | (result, port) => (hub.run runIndex { run with port := port }).call index call (.queueing result)

/-- A call returns, unless its message has to be queued. -/
def return_ (hub : Hub) (index : Nat) (call : Call) (result : CommandResult) : Hub :=
  hub.call index call (if result = .runClosing ∨ result = .runEnded then .queueing result else .returned result)

/-- A call queues its message, and returns. -/
def queue (hub : Hub) (index : Nat) (call : Call) (result : CommandResult) (now : Nat) : Hub :=
  let registry := hub.registry.queuePending call.conversation now ⟨call.compiled, index⟩
  { hub.call index call
      (.queued result ((registry.entryFor call.conversation call.compiled.eventId).getD index)) with registry := registry }

/-- `take_pending`. -/
def take (hub : Hub) (index : Nat) (run : ConversationRun) : Hub :=
  let (taken, registry) := hub.registry.takePending run.conversation
  { hub.run index { run with stage := .taken, taken := taken } with registry := registry }

def activate (hub : Hub) (index : Nat) (run : ConversationRun) : Hub :=
  let (previous, registry) := hub.registry.activate run.conversation index
  let active := hub.run index { run with stage := .active }
  { active with
    registry := registry
    runs := match previous with
      | some previous => active.runs.modify previous fun run => { run with port := run.port.cancel }
      | none => active.runs }

/-- The conversation is at another checkpoint: a run claims it, turns in it, or compacts it. -/
def moveTo (hub : Hub) (conversation : ConversationId) (chain : List CanonicalMessage) : Hub :=
  { hub with
    chains := Function.update hub.chains conversation chain
    stored := hub.stored ++ chain.map fun message => (conversation, message) }

/-- A run inserts messages below the checkpoint that the conversation is at. -/
def insert (hub : Hub) (conversation : ConversationId) (run : Nat) (inserted : List (Nat × CanonicalMessage)) : Hub :=
  { hub.moveTo conversation (hub.chains conversation ++ inserted.map fun entry => entry.2.payload) with
    committed := hub.committed ++ inserted.map fun entry => (entry.1, run, entry.2) }

/-- The first append of a run. -/
def commit (hub : Hub) (index : Nat) (run : ConversationRun) (inserted : List (Nat × CanonicalMessage)) : Hub :=
  (hub.run index { run with stage := .running, taken := [] }).insert run.conversation index inserted

/-- The engine appends a batch, and answers it unless it ends first. -/
def append (hub : Hub) (index : Nat) (run : ConversationRun) (batch : MessageBatch)
    (inserted : List (Nat × CanonicalMessage)) (answers : Bool) : Hub :=
  let result : CommandResult := if inserted = [] then .duplicate else .applied
  (hub.run index (run.answer batch (if answers then some result else none))).insert run.conversation index inserted

/-- The steps of the calls, of the tasks and of the engines. -/
inductive Step (hub : Hub) : Label → Hub → Prop
  -- `deliver`
  | calls (conversation : ConversationId) (compiled : CompiledMessages) :
    Step hub .other
      { hub with calls := hub.calls ++ [⟨conversation, compiled, hub.registry.deliver conversation compiled⟩] }
  | submits {index runIndex : Nat} {call : Call} {run : ConversationRun} (at_call : hub.calls[index]? = some call)
    (submitting : call.state = .submitting runIndex) (at_run : hub.runs[runIndex]? = some run) :
    Step hub .other (hub.submit index call runIndex run)
  | answered {index runIndex : Nat} {call : Call} {run : ConversationRun} {batch : MessageBatch} {result : CommandResult}
    (at_call : hub.calls[index]? = some call) (awaiting : call.state = .awaiting runIndex batch)
    (at_run : hub.runs[runIndex]? = some run) (awaited : run.port.awaited run.held batch = some result) :
    Step hub .other (hub.return_ index call result)
  | queues {index : Nat} {call : Call} {result : CommandResult} (now : Nat) (at_call : hub.calls[index]? = some call)
    (queueing : call.state = .queueing result) : Step hub (.queues index) (hub.queue index call result now)
  -- `spawn_run_request`
  | begins (conversation : ConversationId) (background : Bool) :
    Step hub .other { hub with runs := hub.runs ++ [.begins conversation background] }
  | takes {index : Nat} {run : ConversationRun} (at_run : hub.runs[index]? = some run) (stage : run.stage = .compiling) :
    Step hub .other (hub.take index run)
  | activates {index : Nat} {run : ConversationRun} (at_run : hub.runs[index]? = some run) (stage : run.stage = .taken) :
    Step hub .other (hub.activate index run)
  | claims {index : Nat} {run : ConversationRun} (base : List CanonicalMessage) (at_run : hub.runs[index]? = some run)
    (stage : run.stage = .active) :
    Step hub .other ((hub.run index { run with stage := .claimed }).moveTo run.conversation base)
  -- a background completion stops at a message that is stored
  | commits {index : Nat} {run : ConversationRun} {inserted : List (Nat × CanonicalMessage)} (count : Nat)
    (at_run : hub.runs[index]? = some run) (stage : run.stage = .claimed)
    (all : run.firsts.length ≤ count ∨ run.background = true)
    (ran : appendOnce (hub.chains run.conversation) (run.firsts.take count) = some inserted) :
    Step hub (.commits index count) (hub.commit index run inserted)
  -- it is superseded, or fails to prepare, to claim or to append
  | givesUp {index : Nat} {run : ConversationRun} (at_run : hub.runs[index]? = some run)
    (stage : run.stage = .compiling ∨ run.stage = .taken ∨ run.stage = .active ∨ run.stage = .claimed) :
    Step hub (.givesUp index) (hub.run index run.finish)
  -- the engine
  | moves {index : Nat} {run : ConversationRun} {port : RunPort} (at_run : hub.runs[index]? = some run)
    (moves : PortMove run.port port) : Step hub .other (hub.run index { run with port := port })
  | receives {index : Nat} {run : ConversationRun} {command : RunCommand} {batch : MessageBatch} {port : RunPort}
    (at_run : hub.runs[index]? = some run) (stage : run.stage = .running)
    (received : run.port.receive command = some port) (is : command.batch? = some batch) :
    Step hub .other (hub.run index { run with port := port, held := run.held ++ [batch] })
  | appends {index callIndex : Nat} {run : ConversationRun} {call : Call} {batch : MessageBatch}
    {inserted : List (Nat × CanonicalMessage)} (answers : Bool) (at_run : hub.runs[index]? = some run)
    (stage : run.stage = .running) (held : batch ∈ run.held) (at_call : hub.calls[callIndex]? = some call)
    (awaiting : call.state = .awaiting index batch)
    (ran : appendOnce (hub.chains run.conversation) (batch.messages.map (callIndex, ·)) = some inserted) :
    Step hub .other (hub.append index run batch inserted answers)
  | drops {index : Nat} {run : ConversationRun} {batch : MessageBatch} (at_run : hub.runs[index]? = some run)
    (held : batch ∈ run.held) : Step hub .other (hub.run index (run.answer batch none))
  | turns {index : Nat} {run : ConversationRun} (chain : List CanonicalMessage) (at_run : hub.runs[index]? = some run)
    (stage : run.stage = .running) : Step hub .other (hub.moveTo run.conversation chain)
  | finishes {index : Nat} {run : ConversationRun} (at_run : hub.runs[index]? = some run) (stage : run.stage = .running) :
    Step hub .other (hub.run index run.finish)
  | releases {index : Nat} {run : ConversationRun} (at_run : hub.runs[index]? = some run) (stage : run.stage = .finished) :
    Step hub .other
      { hub.run index { run with stage := .released } with registry := hub.registry.release run.conversation index }

end Hub

/-- The registry of a server, from its start on. -/
def hubs : System Hub Hub.Label where
  initial hub := hub = .new
  step := Hub.Step

end Byok.Cursor.Conversation
