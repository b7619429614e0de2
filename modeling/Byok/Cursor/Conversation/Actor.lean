/-
**The actor of a transport and its generations.** `server/src/cursor/conversation/runtime.rs`,
`server/src/cursor/transport/lifecycle.rs`.

The actor takes commands out of its queue and starts a generation for every request of a run; the task of a
generation waits for the one before it, prepares its run, lets the engine run, and reports its end to the actor.
Generations are counted from 0, so that `next_generation` is their number.

* `Transport` — the actor, its lifecycle, its queue and the tasks of its generations.
* `Transport.startGeneration`, `Transport.disconnect`, `Transport.runFinished`, `Transport.message` — what the actor does.
* `transports` — its steps, those of the tasks and those of the clients, in any order.
-/

import Byok.Cursor.Transport.Inbox
import Byok.Run.Handle
import Byok.Library.System

namespace Byok.Cursor.Conversation

open Library

/-! ### The lifecycle -/

inductive TransportState where
  | opened
  | closing
  | draining
  | closed
deriving DecidableEq, Repr

/-- `LifecycleState`. -/
structure Lifecycle where
  state : TransportState
  admissions : Nat
deriving DecidableEq, Repr

namespace Lifecycle

/-- `admit`. -/
def admission (lifecycle : Lifecycle) : Option Lifecycle :=
  if lifecycle.state = .opened then some { lifecycle with admissions := lifecycle.admissions + 1 } else none

/-- The drop of a `TransportAdmission`. -/
def release (lifecycle : Lifecycle) : Lifecycle := { lifecycle with admissions := lifecycle.admissions - 1 }

def beginClose (lifecycle : Lifecycle) : Lifecycle :=
  if lifecycle.state = .opened then { lifecycle with state := .closing } else lifecycle

def markDraining (lifecycle : Lifecycle) : Lifecycle :=
  if lifecycle.state = .closing ∧ lifecycle.admissions = 0 then { lifecycle with state := .draining } else lifecycle

def reopen (lifecycle : Lifecycle) : Lifecycle :=
  if lifecycle.state = .closing ∨ lifecycle.state = .draining then { lifecycle with state := .opened } else lifecycle

def close (lifecycle : Lifecycle) : Lifecycle := { lifecycle with state := .closed }

end Lifecycle

/-! ### Commands -/

inductive TransportFinish where
  | success
  | failed (error : Error)
  | cancelled
deriving DecidableEq

inductive RunFinish where
  | turnCompleted
  | transport (finish : TransportFinish)
deriving DecidableEq

/-- `AgentClientMessage`, by what it does to the actor: the messages that answer a tool, a blob or a context and the
other actions go to the current generation. -/
inductive ClientMessage where
  | runRequest (conversationId : Option String)
  | userMessageAction
  | cancelAction
  | other
deriving DecidableEq

inductive TransportCommand where
  | append (seqno : Int) (message : ClientMessage)
  | runFinished (generation : Nat) (finish : RunFinish)
  | disconnect
deriving DecidableEq

/-! ### Generations -/

/-- Where the task of a generation is. `waiting` knows the generation that it waits for. A task that is `active` is past
its last look at the token `superseded`, and has its run in the registry, its engine and its output; the output of one
that is `finishing` has ended, and one that is `released` has none of them any more. -/
inductive Stage where
  | waiting (previous : Option Nat)
  | compiling
  | compiled
  | registered
  | active
  | finishing
  | released
  | reported
  | ended
deriving DecidableEq

/-- `RunGeneration` and its task. The token `finished` is set when the task ends. -/
structure Generation where
  stage : Stage
  superseded : Bool
  run : Option RunPort
deriving DecidableEq

/-- The actor of a transport, and what it shares with others. `ready` are the messages of an append that it has yet to
go through, `sent` the ends of stream that it has emitted. -/
structure Transport where
  requestId : String
  lifecycle : Lifecycle
  conversationId : Option String
  inbox : OrderedInbox ClientMessage
  queue : List TransportCommand
  ready : List ClientMessage
  generations : List Generation
  current : Option Nat
  pendingFinish : Option (Nat × TransportFinish)
  draining : Bool
  waitingForAction : Bool
  sent : List TransportFinish
  stopped : Bool

namespace Generation

/-- A generation that begins behind another one. -/
def starting (previous : Option Nat) : Generation := ⟨.waiting previous, false, none⟩

/-- `run.cancel()`, where there is a run. -/
def cancelRun (generation : Generation) : Generation := { generation with run := generation.run.map RunPort.cancel }

/-- The token `superseded` is set, and the run is cancelled. -/
def supersede (generation : Generation) : Generation := { generation.cancelRun with superseded := true }

/-- Whether a run is in phase `running` and its output takes runtime actions. -/
def takesActions (generation : Generation) : Bool :=
  generation.stage != .finishing && generation.run.any fun run => run.phase = .running

end Generation

namespace Transport

/-- A transport whose actor begins. -/
def new (requestId : String) : Transport where
  requestId := requestId
  lifecycle := ⟨.opened, 0⟩
  conversationId := none
  inbox := .startingAt 0
  queue := []
  ready := []
  generations := []
  current := none
  pendingFinish := none
  draining := false
  waitingForAction := false
  sent := []
  stopped := false

/-- A generation changes. -/
def change (transport : Transport) (index : Nat) (update : Generation → Generation) : Transport :=
  { transport with generations := transport.generations.modify index update }

/-- The current generation changes, if there is one. -/
def changeCurrent (transport : Transport) (update : Generation → Generation) : Transport :=
  match transport.current with
  | some index => transport.change index update
  | none => transport

/-- The current generation. -/
def currentGeneration (transport : Transport) : Option Generation :=
  transport.current.bind fun index => transport.generations[index]?

/-- `finish_transport`: `finish_success`, `finish_failed` or `finish_cancelled`. -/
def finishTransport (transport : Transport) (finish : TransportFinish) : Transport :=
  { transport with sent := transport.sent ++ [finish] }

/-- The end of the actor, with its `TransportActorGuard`. Its `current` is dropped, and with it the only sender of the
runtime actions of that generation: an output that still runs ends then. -/
def stop (transport : Transport) : Transport :=
  { transport with stopped := true, current := none, lifecycle := transport.lifecycle.close }

def finishPending (transport : Transport) : Transport :=
  match transport.pendingFinish with
  | none => transport
  | some (generation, finish) =>
    if transport.current = some generation then transport.finishTransport finish else transport

def startGeneration (transport : Transport) : Transport :=
  let superseded := transport.changeCurrent Generation.supersede
  { superseded with
    lifecycle := transport.lifecycle.reopen
    draining := false
    pendingFinish := none
    waitingForAction := false
    generations := superseded.generations ++ [.starting transport.current]
    current := some superseded.generations.length }

def setConversationId (transport : Transport) (conversationId : String) : Except Error Transport :=
  if conversationId = "" then .error (.protocol "Cursor conversation id is required")
  else
    match transport.conversationId with
    | none => .ok { transport with conversationId := some conversationId }
    | some bound =>
      if bound = conversationId then .ok transport
      else .error (.protocol ("conflicting conversation ids for request " ++ transport.requestId))

def disconnect (transport : Transport) : Transport :=
  let cancelled := transport.changeCurrent Generation.supersede
  let turnCompleted := transport.waitingForAction ||
    cancelled.currentGeneration.any fun generation => generation.run.all fun run => run.phase != .running
  (cancelled.finishTransport (if turnCompleted then .success else .cancelled)).stop

def runFinished (transport : Transport) (generation : Nat) (finish : RunFinish) : Transport :=
  if transport.current ≠ some generation then transport
  else
    match finish with
    | .turnCompleted => { transport with pendingFinish := none, draining := false, waitingForAction := true }
    | .transport finish =>
      { transport with
        waitingForAction := false
        lifecycle := transport.lifecycle.beginClose
        pendingFinish := some (generation, finish)
        draining := true }

/-- A message of an append. -/
def message (transport : Transport) : ClientMessage → Transport
  | .runRequest none => transport.startGeneration
  | .runRequest (some conversationId) =>
    match transport.setConversationId conversationId with
    | .ok transport => transport.startGeneration
    | .error error => (transport.finishTransport (.failed error)).stop
  | .userMessageAction =>
    match transport.currentGeneration with
    | none => transport
    | some generation => if generation.takesActions then transport else transport.startGeneration
  | .cancelAction => transport.changeCurrent Generation.cancelRun
  | .other => transport

/-- A command. The messages of an append wait in `ready`. -/
def command (transport : Transport) (now : Nat) : TransportCommand → Transport
  | .append seqno message =>
    let (ready, inbox) := transport.inbox.pushAt now seqno message
    { transport with inbox := inbox, ready := ready.map Prod.snd }
  | .runFinished generation finish => transport.runFinished generation finish
  | .disconnect => transport.disconnect

/-- The idle timeout while the actor waits for an action. -/
def idle (transport : Transport) : Transport :=
  match transport.current with
  | none => (transport.finishTransport .success).stop
  | some generation =>
    { transport with
      lifecycle := transport.lifecycle.beginClose
      pendingFinish := some (generation, .success)
      draining := true
      waitingForAction := false }

/-- The top of the loop while the actor drains. -/
def marked (transport : Transport) : Transport :=
  if transport.draining then { transport with lifecycle := transport.lifecycle.markDraining } else transport

/-- A generation takes the next stage. -/
def goTo (transport : Transport) (index : Nat) (stage : Stage) : Transport :=
  transport.change index fun generation => { generation with stage := stage }

/-- The task of a generation reports its end. -/
def report (transport : Transport) (index : Nat) (finish : RunFinish) : Transport :=
  { transport.goTo index .reported with queue := transport.queue ++ [.runFinished index finish] }

/-! ### Steps -/

/-- What a step is. -/
inductive Label where
  | client
  | receives
  | handles (message : ClientMessage)
  | drains
  | idles
  | begins (index : Nat)
  | givesUp (index : Nat)
  | goesOn (index : Nat)
deriving DecidableEq

/-- Whether the generation that a task waits for has ended. -/
def previousFinished (transport : Transport) : Option Nat → Bool
  | none => true
  | some previous => transport.generations[previous]?.any fun generation => generation.stage = .ended

/-- The steps of the clients, of the actor and of the tasks. -/
inductive Step (transport : Transport) : Label → Transport → Prop
  | sends (command : TransportCommand) (from_client : ∀ generation finish, command ≠ .runFinished generation finish) :
    Step transport .client { transport with queue := transport.queue ++ [command] }
  | admits {lifecycle : Lifecycle} (admitted : transport.lifecycle.admission = some lifecycle) :
    Step transport .client { transport with lifecycle := lifecycle }
  | releasesAdmission : Step transport .client { transport with lifecycle := transport.lifecycle.release }
  | closes : Step transport .client { transport with lifecycle := transport.lifecycle.close }
  | binds {conversationId : String} {bound : Transport} (set : transport.setConversationId conversationId = .ok bound) :
    Step transport .client bound
  -- the actor
  | receives {command : TransportCommand} {rest : List TransportCommand} (now : Nat) (runs : transport.stopped = false)
    (idle : transport.ready = []) (next : transport.queue = command :: rest) :
    Step transport .receives (({ transport.marked with queue := rest } : Transport).command now command)
  | handles {message : ClientMessage} {rest : List ClientMessage} (runs : transport.stopped = false)
    (next : transport.ready = message :: rest) :
    Step transport (.handles message) (({ transport with ready := rest } : Transport).message message)
  | drains (runs : transport.stopped = false) (idle : transport.ready = []) (draining : transport.draining = true)
    (drained : transport.lifecycle.admissions = 0) (empty : transport.queue = []) :
    Step transport .drains ({ transport.marked.finishPending with pendingFinish := none } : Transport).stop
  | idles (runs : transport.stopped = false) (idle : transport.ready = []) (flows : transport.draining = false)
    (waits : transport.waitingForAction = true) : Step transport .idles transport.idle
  -- the task of a generation: its wait
  | givesUp {index : Nat} {generation : Generation} {previous : Option Nat}
    (at_index : transport.generations[index]? = some generation) (waits : generation.stage = .waiting previous)
    (superseded : generation.superseded = true) : Step transport (.givesUp index) (transport.goTo index .ended)
  | begins {index : Nat} {generation : Generation} {previous : Option Nat}
    (at_index : transport.generations[index]? = some generation) (waits : generation.stage = .waiting previous)
    (finished : transport.previousFinished previous = true) (current : generation.superseded = false) :
    Step transport (.begins index) (transport.goTo index .compiling)
  -- it prepares its run: it is superseded, fails, or goes on. Between its look at the token and what follows, the token
  -- may be set.
  | abandons {index : Nat} {generation : Generation} (at_index : transport.generations[index]? = some generation)
    (prepares : generation.stage = .compiling ∨ generation.stage = .compiled) :
    Step transport (.goesOn index) (transport.goTo index .ended)
  | fails {index : Nat} {generation : Generation} (finish : TransportFinish)
    (at_index : transport.generations[index]? = some generation)
    (prepares : generation.stage = .compiling ∨ generation.stage = .compiled) :
    Step transport (.goesOn index) (transport.report index (.transport finish))
  | compiles {index : Nat} {generation : Generation} (at_index : transport.generations[index]? = some generation)
    (prepares : generation.stage = .compiling) : Step transport (.goesOn index) (transport.goTo index .compiled)
  | registers {index : Nat} {generation : Generation} (at_index : transport.generations[index]? = some generation)
    (prepared : generation.stage = .compiled) :
    Step transport (.goesOn index)
      (transport.change index fun generation => { generation with stage := .registered, run := some .new })
  | withdraws {index : Nat} {generation : Generation} (at_index : transport.generations[index]? = some generation)
    (registered : generation.stage = .registered) (superseded : generation.superseded = true) :
    Step transport (.goesOn index)
      (transport.change index fun generation => { generation with stage := .ended, run := none })
  | activates {index : Nat} {generation : Generation} (at_index : transport.generations[index]? = some generation)
    (registered : generation.stage = .registered) (current : generation.superseded = false) :
    Step transport (.goesOn index) (transport.goTo index .active)
  -- its engine and output run, and take no cancellation back
  | runs {index : Nat} {generation : Generation} {run : RunPort} (after : RunPort)
    (at_index : transport.generations[index]? = some generation)
    (active : generation.stage = .active ∨ generation.stage = .finishing) (running : generation.run = some run)
    (still : run.cancelled = true → after.cancelled = true) :
    Step transport (.goesOn index) (transport.change index fun generation => { generation with run := some after })
  -- its output ends by itself, fails, or finds the sender of its actions dropped
  | finishes {index : Nat} {generation : Generation} (at_index : transport.generations[index]? = some generation)
    (active : generation.stage = .active) : Step transport (.goesOn index) (transport.goTo index .finishing)
  -- both have ended, and the run is out of the registry
  | releases {index : Nat} {generation : Generation} (at_index : transport.generations[index]? = some generation)
    (finishing : generation.stage = .finishing) :
    Step transport (.goesOn index)
      (transport.change index fun generation => { generation with stage := .released, run := none })
  | reports {index : Nat} {generation : Generation} (finish : RunFinish)
    (at_index : transport.generations[index]? = some generation) (released : generation.stage = .released) :
    Step transport (.goesOn index) (transport.report index finish)
  | ends {index : Nat} {generation : Generation} (at_index : transport.generations[index]? = some generation)
    (done : generation.stage = .reported ∨ generation.stage = .released ∧ generation.superseded = true) :
    Step transport (.goesOn index) (transport.goTo index .ended)

end Transport

/-- A transport, its clients and the tasks of its generations. -/
def transports (requestId : String) : System Transport Transport.Label where
  initial transport := transport = .new requestId
  step := Transport.Step

end Byok.Cursor.Conversation
