/-
**Subagents that end.** `server/src/cursor/conversation/subagents.rs`, `deliver_wake` of `registry.rs`, and the parent
and the conversation of a `TransportHandle`.

When a run of a subagent ends, `subagent_finished` looks for the Task call that its transport names, and wakes the
conversation that it finds with a completion. The ledger of what was notified is that of the process.

* `TransportHandle` — it names no empty conversation and no empty call.
* `Ending` — a call of `subagent_finished`, and how far it is.
* `Subagents` — the tables, the ledger, the conversations that the user stopped and the calls; `run`, what is done with
  them in any order.
-/

import Byok.Cursor.Compile.Completions
import Byok.Cursor.Conversation.Actor
import Byok.Cursor.Conversation.Registry
import Byok.Library.Ledger
import Byok.Store.Tasks

namespace Byok.Cursor.Conversation

open Library Compile

/-! ### Handles -/

structure TransportParent where
  requestId : Option String
  toolCallId : Option String
deriving DecidableEq, Repr

/-- `TransportHandle`, with what is bound to it. -/
structure TransportHandle where
  requestId : String
  conversationId : Option String
  parent : Option TransportParent
  named : conversationId ≠ some ""
  called : parent.bind TransportParent.toolCallId ≠ some ""

/-! ### The ledger -/

/-- `NOTIFIED_TTL`. Instants count nanoseconds. -/
def notifiedTtl : Nat := 6 * 60 * 60 * 1000000000

def notifiedPruneAt : Nat := 4096

def notifiedLimit : Nat := 8192

def notifiedLimits : LedgerLimits := ⟨notifiedTtl, notifiedPruneAt, notifiedLimit⟩

/-- `already_notified`, when the clock was read. -/
def alreadyNotified (now : Nat) (notified : Ledger String) (eventId : String) : Bool × Ledger String :=
  notified.enter notifiedLimits now eventId

/-! ### Conversations that the user stopped -/

def stoppedTtl : Nat := 24 * 60 * 60 * 1000000000

def markStopped (now : Nat) (stopped : Table ConversationId Nat) (conversation : ConversationId) :
    Table ConversationId Nat :=
  (retain (fun marked => now - marked < stoppedTtl) stopped).insert conversation now

def clearStopped (stopped : Table ConversationId Nat) (conversation : ConversationId) : Table ConversationId Nat :=
  stopped.erase conversation

def isStopped (now : Nat) (stopped : Table ConversationId Nat) (conversation : ConversationId) :
    Bool × Table ConversationId Nat :=
  match stopped.lookup conversation with
  | some marked => if now - marked < stoppedTtl then (true, stopped) else (false, stopped.erase conversation)
  | none => (false, stopped)

/-! ### Calls of `subagent_finished` -/

def completionStatus : TransportFinish → BackgroundTaskStatus
  | .success => .success
  | .failed _ => .error
  | .cancelled => .aborted

def finalText (messages : List CanonicalMessage) : Option String :=
  messages.reverse.findSome? fun message =>
    match message.content with
    | .assistant text .. => if trim text = "" then none else some (trim text)
    | _ => none

/-- The event id of the completion of a subagent. -/
def completionId (child callId : String) : String := "background-completed:" ++ subagentIdentity child callId

/-- A completion that is on its way to a conversation. Not in the code: the tables in which the Task call was looked up,
the time that `already_notified` had read and when it was its turn, and how often the ledger had been cleared. -/
structure Report where
  child : String
  callId : String
  conversation : ConversationId
  title : String
  compiled : CompiledMessages
  seen : TaskTables
  now : Nat
  checked : Nat
  clears : Nat

/-- How a call returned. `failed` is an error of the store, `noTask` that there is no background task, and `woken` the
result of `deliver_wake`: it has dropped the completion, or handed it to `deliver`. -/
inductive Outcome where
  | failed
  | noTask (seen : TaskTables)
  | notProjected (seen : TaskTables)
  | alreadyNotified (seen : TaskTables) (now : Nat)
  | woken (report : Report) (suppressed : Bool)

/-- Where a call is: it looks for the Task call, it reads the messages of the subagent, it waits for the ledger, or it
wakes the parent. -/
inductive Phase where
  | asking
  | reading (seen : TaskTables) (conversation : ConversationId) (title : String)
  | checking (seen : TaskTables) (conversation : ConversationId) (title context : String) (now : Nat)
  | waking (report : Report)
  | returned (outcome : Outcome)

/-- A call of `subagent_finished` that has a child and a call id. -/
structure Ending where
  child : String
  callId : String
  finish : TransportFinish
  phase : Phase
  childNamed : child ≠ ""
  callNamed : callId ≠ ""

/-- `subagent_finished`, up to its first `await`. -/
def subagentFinished (handle : TransportHandle) (finish : TransportFinish) : Option Ending :=
  match call : handle.parent.bind TransportParent.toolCallId, conversation : handle.conversationId with
  | some callId, some child =>
    some ⟨child, callId, finish, .asking, fun empty => handle.named (by rw [conversation, empty]),
      fun empty => handle.called (by rw [call, empty])⟩
  | _, _ => none

namespace Ending

/-- The identity of the completion. -/
def eventId (ending : Ending) : String := completionId ending.child ending.callId

/-- `background_task` returns, when its query gives `row`. -/
def ask (tables : TaskTables) (row : Option TaskRow) (ending : Ending) : Ending :=
  match ending.phase with
  | .asking =>
    if tables.gives ending.callId row then
      match TaskTables.backgroundTask row with
      | some (conversation, title) => { ending with phase := .reading tables conversation title }
      | none => { ending with phase := .returned (.noTask tables) }
    else ending
  | _ => ending

/-- `background_task` fails. -/
def fail (ending : Ending) : Ending :=
  match ending.phase with
  | .asking => { ending with phase := .returned .failed }
  | _ => ending

/-- `AgentMode::Agent`. -/
def agentMode : Int := 1

/-- `load_current_messages` returns, or fails; then the completion is compiled, and the clock is read. -/
def read (clock : Nat) (messages : Option (List CanonicalMessage)) (ending : Ending) : Ending :=
  match ending.phase with
  | .reading seen conversation title =>
    match project (subagentCompletion ending.child ending.callId title (messages.bind finalText)
      (completionStatus ending.finish)) agentMode with
    | .ok (some projection) => { ending with phase := .checking seen conversation title projection.context clock }
    | _ => { ending with phase := .returned (.notProjected seen) }
  | _ => ending

end Ending

/-! ### Any number of calls -/

/-- The tables, the clock, the ledger, the marks of stopped conversations, and the calls. `clears` counts how often the
ledger was cleared, and `reports` are the completions in the order in which they were entered. -/
structure Subagents where
  tables : TaskTables
  clock : Nat
  notified : Ledger String
  clears : Nat
  stopped : Table ConversationId Nat
  ends : List Ending
  reports : List Report

/-- What is done. -/
inductive SubagentAct where
  /-- The store does whatever it does. -/
  | store (tables : TaskTables)
  /-- Time passes. -/
  | wait (elapsed : Nat)
  /-- The user stops a conversation; the clock was read a while ago. -/
  | stop (conversation : ConversationId) (late : Nat)
  /-- The client opens it again. -/
  | reopen (conversation : ConversationId)
  /-- A run of a subagent ends. -/
  | finish (handle : TransportHandle) (finish : TransportFinish)
  /-- A call goes on. -/
  | fail (index : Nat)
  | ask (index : Nat) (row : Option TaskRow)
  | read (index : Nat) (messages : Option (List CanonicalMessage))
  | check (index : Nat) (timestamp : String)
  | wake (index late : Nat)

namespace Subagents

/-- A process begins. -/
def new (tables : TaskTables) : Subagents := ⟨tables, 0, ∅, 0, ∅, [], []⟩

/-- A call changes. -/
def change (state : Subagents) (index : Nat) (changed : Ending → Ending) : Subagents :=
  { state with ends := state.ends.modify index changed }

/-- `already_notified` and `wakeup_message`, and then `deliver_wake` begins. -/
def check (state : Subagents) (index : Nat) (timestamp : String) : Subagents :=
  match state.ends[index]? with
  | some ending =>
    match ending.phase with
    | .checking seen conversation title context now =>
      let entered := alreadyNotified now state.notified ending.eventId
      let clears := state.clears + (state.notified.room notifiedLimits now).1.toNat
      let state := { state with notified := entered.2, clears }
      if entered.1 then state.change index fun ending => { ending with phase := .returned (.alreadyNotified seen now) }
      else
        let compiled : CompiledMessages :=
          ⟨ending.eventId, none, [wakeupMessage timestamp ending.eventId context], .insertMessages⟩
        let report : Report :=
          ⟨ending.child, ending.callId, conversation, title, compiled, seen, now, state.clock, clears⟩
        { state.change index fun ending => { ending with phase := .waking report } with
          reports := state.reports ++ [report] }
    | _ => state
  | none => state

/-- `deliver_wake`. -/
def wake (state : Subagents) (index late : Nat) : Subagents :=
  match state.ends[index]? with
  | some ending =>
    match ending.phase with
    | .waking report =>
      let (suppressed, stopped) := isStopped (state.clock - late) state.stopped report.conversation
      { state with stopped }.change index fun ending => { ending with phase := .returned (.woken report suppressed) }
    | _ => state
  | none => state

/-- One step. -/
def act (state : Subagents) : SubagentAct → Subagents
  | .store tables => { state with tables }
  | .wait elapsed => { state with clock := state.clock + elapsed }
  | .stop conversation late => { state with stopped := markStopped (state.clock - late) state.stopped conversation }
  | .reopen conversation => { state with stopped := clearStopped state.stopped conversation }
  | .finish handle finish => { state with ends := state.ends ++ (subagentFinished handle finish).toList }
  | .fail index => state.change index Ending.fail
  | .ask index row => state.change index (Ending.ask state.tables row)
  | .read index messages => state.change index (Ending.read state.clock messages)
  | .check index timestamp => state.check index timestamp
  | .wake index late => state.wake index late

/-- A run. -/
def run (tables : TaskTables) (acts : List SubagentAct) : Subagents := acts.foldl act (new tables)

theorem run_concat (tables : TaskTables) (acts : List SubagentAct) (last : SubagentAct) :
    run tables (acts ++ [last]) = (run tables acts).act last := by
  rw [run, List.foldl_append]
  rfl

end Subagents

end Byok.Cursor.Conversation
