/-
**The tool runtimes of a conversation.** `server/src/cursor/tools/runtime.rs`.

Every run has its own maps of pending Execs and interactions; the counter of ids and the set of interrupted ids are
shared by all runs. An operation takes one lock after another, and between two of its sections others may go on.

* `CursorToolRuntime` — the maps of a run; `Section`, what an operation does under one lock.
* `Lineage` — the runtimes of a conversation with the operations in flight, and `lineages`, its steps.
-/

import Byok.Model.Message
import Byok.Library.System
import Mathlib.Algebra.Group.Nat.Defs
import Mathlib.Data.List.Sort

namespace Byok.Cursor.Tools

open Library

/-- A map by id. -/
abbrev Entries (α : Type) := List (UInt32 × α)

namespace Entries

variable {α : Type}

def ids (entries : Entries α) : List UInt32 := entries.map Prod.fst

def remove (entries : Entries α) (id : UInt32) : Entries α := entries.filter fun entry => entry.1 != id

def insert (entries : Entries α) (id : UInt32) (value : α) : Entries α := (id, value) :: entries.remove id

def get? (entries : Entries α) (id : UInt32) : Option α := (entries.find? fun entry => entry.1 == id).map Prod.snd

end Entries

/-- `PendingExec`, with what these operations read of it. -/
structure PendingExec where
  call : ToolCall
deriving DecidableEq

structure PendingInteraction where
  call : ToolCall
deriving DecidableEq

/-- `CursorToolRuntime`, apart from what runs share. `held` is the lock of `execs` while a drain keeps it. -/
structure CursorToolRuntime where
  execs : Entries PendingExec
  interactions : Entries PendingInteraction
  completed : Entries String
  held : Bool
deriving DecidableEq

/-- A runtime of a new run. -/
def CursorToolRuntime.fresh : CursorToolRuntime := ⟨[], [], [], false⟩

/-- `eq_ignore_ascii_case("Task")`. -/
def isTask (call : ToolCall) : Bool := call.name.toList.map Char.toLower == ['t', 'a', 's', 'k']

/-- `next_id`: the counter behind it, and the id unless the ids have run out. -/
def nextId (counter : UInt32) : UInt32 × Except Error UInt32 :=
  (counter + 1,
    if counter = UInt32.ofNat (2 ^ 32 - 1) then .error (.protocol "Cursor message id space exhausted")
    else .ok (counter + 1))

/-- `sort_unstable`. -/
def sortIds (ids : List UInt32) : List UInt32 := ids.insertionSort (· ≤ ·)

/-! ### Sections -/

/-- What an operation does under one lock, with what it has gathered before. -/
inductive Section where
  | insertExec (id : UInt32) (pending : PendingExec)
  | insertInteraction (id : UInt32) (pending : PendingInteraction)
  | takeExecUnlessInterrupted (id : UInt32)
  | takeInteraction (id : UInt32)
  | complete (id : UInt32) (callId : String)
  | discardExec (id : UInt32)
  | discardInteraction (id : UInt32)
  | messageExecs
  | messageInteractions (abortIds interruptedIds : List UInt32)
  | messageInterrupted (abortIds interruptedIds interactionIds : List UInt32)
  | replacementExecs
  | replacementInteractions (abortIds : List UInt32)
  | replacementCompleted (abortIds interruptedIds : List UInt32)
  | replacementInterrupted (abortIds interruptedIds : List UInt32)
  | drainExecs
  | drainInteractions (ids : List UInt32)
  | drainCompleted (ids : List UInt32)
  | drainInterrupted (ids : List UInt32)
deriving DecidableEq

/-- The sections that an operation begins with. A reservation begins with its id. -/
def Section.begins : Section → Bool
  | takeExecUnlessInterrupted _ | takeInteraction _ | discardExec _ | discardInteraction _ | messageExecs
  | replacementExecs | drainExecs => true
  | _ => false

/-- The sections that lock `execs`. -/
def Section.locksExecs : Section → Bool
  | insertExec _ _ | takeExecUnlessInterrupted _ | discardExec _ | messageExecs | replacementExecs | drainExecs => true
  | _ => false

/-- What others see of a step. -/
inductive Event where
  | reserved (id : Option UInt32)
  | taken (id : UInt32)
  | cleared (ids : List UInt32)
  | aborted (ids : List UInt32)
  | nothing
deriving DecidableEq

/-- What a section leaves: the runtime, the interrupted ids, the section that follows, what others see, and the ids
that are stopped from here on. -/
structure Ended where
  runtime : CursorToolRuntime
  interrupted : List UInt32
  next : Option Section
  event : Event
  stopped : List UInt32

/-- A section. -/
def Section.run (runtime : CursorToolRuntime) (interrupted : List UInt32) : Section → Ended
  -- `reserve_exec_stage`, `reserve_interaction`
  | insertExec id pending =>
    ⟨{ runtime with execs := runtime.execs.insert id pending }, interrupted, none, .nothing, []⟩
  | insertInteraction id pending =>
    ⟨{ runtime with interactions := runtime.interactions.insert id pending }, interrupted, none, .nothing, []⟩
  | takeExecUnlessInterrupted id =>
    let entries := { runtime with execs := runtime.execs.remove id }
    if id ∈ interrupted then ⟨entries, interrupted, none, .nothing, []⟩
    else
      match runtime.execs.get? id with
      | some pending => ⟨entries, interrupted, some (.complete id pending.call.callId), .taken id, []⟩
      | none => ⟨entries, interrupted, none, .nothing, []⟩
  | takeInteraction id =>
    let entries := { runtime with interactions := runtime.interactions.remove id }
    match runtime.interactions.get? id with
    | some pending => ⟨entries, interrupted, some (.complete id pending.call.callId), .taken id, []⟩
    | none => ⟨entries, interrupted, none, .nothing, []⟩
  | complete id callId =>
    ⟨{ runtime with completed := runtime.completed.insert id callId }, interrupted, none, .nothing, []⟩
  | discardExec id => ⟨{ runtime with execs := runtime.execs.remove id }, interrupted, none, .nothing, []⟩
  | discardInteraction id =>
    ⟨{ runtime with interactions := runtime.interactions.remove id }, interrupted, none, .nothing, []⟩
  -- `interrupt_for_message`: a Task keeps running
  | messageExecs =>
    let abortIds := Entries.ids (runtime.execs.filter fun entry => !isTask entry.2.call)
    ⟨{ runtime with execs := runtime.execs.filter fun entry => isTask entry.2.call }, interrupted,
      some (.messageInteractions abortIds runtime.execs.ids), .nothing, abortIds⟩
  | messageInteractions abortIds interruptedIds =>
    ⟨{ runtime with interactions := [] }, interrupted,
      some (.messageInterrupted abortIds interruptedIds runtime.interactions.ids), .nothing, runtime.interactions.ids⟩
  | messageInterrupted abortIds interruptedIds interactionIds =>
    ⟨runtime, interrupted ++ interruptedIds ++ interactionIds, none, .aborted (sortIds abortIds), interruptedIds⟩
  -- `interrupt_for_run_replacement`
  | replacementExecs =>
    ⟨{ runtime with execs := [] }, interrupted, some (.replacementInteractions runtime.execs.ids), .nothing,
      runtime.execs.ids⟩
  | replacementInteractions abortIds =>
    ⟨{ runtime with interactions := [] }, interrupted,
      some (.replacementCompleted abortIds (abortIds ++ runtime.interactions.ids)), .nothing, runtime.interactions.ids⟩
  | replacementCompleted abortIds interruptedIds =>
    ⟨{ runtime with completed := [] }, interrupted, some (.replacementInterrupted abortIds interruptedIds), .nothing, []⟩
  | replacementInterrupted abortIds interruptedIds =>
    ⟨runtime, interrupted ++ interruptedIds, none, .aborted (sortIds abortIds), []⟩
  -- `drain_running`: the lock of `execs` is kept to the end
  | drainExecs =>
    ⟨{ runtime with execs := [], held := true }, interrupted, some (.drainInteractions (sortIds runtime.execs.ids)),
      .nothing, runtime.execs.ids⟩
  | drainInteractions ids =>
    ⟨{ runtime with interactions := [] }, interrupted, some (.drainCompleted ids), .nothing, runtime.interactions.ids⟩
  | drainCompleted ids =>
    ⟨{ runtime with completed := [] }, interrupted, some (.drainInterrupted ids), .nothing, []⟩
  | drainInterrupted ids => ⟨{ runtime with held := false }, [], none, .cleared ids, []⟩

/-! ### The runtimes of a conversation -/

/-- A section that waits for its turn, and the runtime it is for. -/
structure Flight where
  runtime : Nat
  sect : Section
deriving DecidableEq

/-- The runtimes of a conversation, what they share, and the operations in flight; and of the past, the reservations,
the ids that were reserved, those that were handed out and those that were stopped. -/
structure Lineage where
  counter : UInt32
  interrupted : List UInt32
  runtimes : List CursorToolRuntime
  flights : List Flight
  reservations : Nat
  reserved : List UInt32
  taken : List UInt32
  stopped : List UInt32

/-- The first runtime of a conversation. -/
def Lineage.fresh : Lineage := ⟨0, [], [.fresh], [], 0, [], [], []⟩

/-- The id that was handed out. -/
def Event.taken? : Event → List UInt32
  | taken id => [id]
  | _ => []

/-- The lineage behind a section of the runtime at `index`, with `flights` in flight besides what follows it. -/
def Lineage.ended (lineage : Lineage) (index : Nat) (flights : List Flight) (ended : Ended) : Lineage :=
  { lineage with
    interrupted := ended.interrupted
    runtimes := lineage.runtimes.set index ended.runtime
    flights := flights ++ (ended.next.map (Flight.mk index)).toList
    taken := ended.event.taken? ++ lineage.taken
    stopped := ended.stopped ++ lineage.stopped }

/-- What a reservation inserts. -/
inductive Reservation where
  | exec (pending : PendingExec)
  | interaction (pending : PendingInteraction)

/-- The section in which a reservation inserts its entry. -/
def Reservation.insert (id : UInt32) : Reservation → Section
  | exec pending => .insertExec id pending
  | interaction pending => .insertInteraction id pending

/-- The steps: an operation begins or goes on with a section, an id is drawn, or a run begins. -/
inductive Lineage.Step (lineage : Lineage) : Event → Lineage → Prop
  | begin_ {index : Nat} {runtime : CursorToolRuntime} (sect : Section) (at_index : lineage.runtimes[index]? = some runtime)
    (begins : sect.begins = true) (free : sect.locksExecs = true → runtime.held = false) :
    Step lineage (sect.run runtime lineage.interrupted).event
      (lineage.ended index lineage.flights (sect.run runtime lineage.interrupted))
  | goes_on {index : Nat} {runtime : CursorToolRuntime} {sect : Section} {before after : List Flight}
    (at_index : lineage.runtimes[index]? = some runtime) (waits : lineage.flights = before ++ ⟨index, sect⟩ :: after)
    (free : sect.locksExecs = true → runtime.held = false) :
    Step lineage (sect.run runtime lineage.interrupted).event
      (lineage.ended index (before ++ after) (sect.run runtime lineage.interrupted))
  | reserve {index : Nat} {id : UInt32} (there : index < lineage.runtimes.length) (reservation : Reservation)
    (drawn : (nextId lineage.counter).2 = .ok id) :
    Step lineage (.reserved (some id))
      { lineage with
        counter := (nextId lineage.counter).1
        flights := lineage.flights ++ [⟨index, reservation.insert id⟩]
        reservations := lineage.reservations + 1
        reserved := id :: lineage.reserved }
  | exhausted {error : Error} (drawn : (nextId lineage.counter).2 = .error error) :
    Step lineage (.reserved none)
      { lineage with counter := (nextId lineage.counter).1, reservations := lineage.reservations + 1 }
  -- `next_run`
  | nextRun : Step lineage .nothing { lineage with runtimes := lineage.runtimes ++ [.fresh] }

/-- The runtimes of one conversation. -/
def lineages : System Lineage Event where
  initial lineage := lineage = .fresh
  step := Lineage.Step

end Byok.Cursor.Tools
