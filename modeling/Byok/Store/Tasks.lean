/-
**Background subagents in the store.** `has_running_background_subagents` and `background_task` of
`server/src/store/runs.rs`.

Both queries find a Task call by its id alone. Ids of calls are unique within a round (`UNIQUE (round_id, call_id)`):
two rounds, of one conversation or of two, may share them.

* `TaskTables` — the columns of `runs`, `tool_rounds` and `tool_round_calls` that the queries read.
* `backgroundTask`, `hasRunningBackgroundSubagents` — the queries.
* `hasRunningBackgroundSubagents_iff` — a running child counts when any call with the id of its own has completed.
-/

import Byok.Library.Gather
import Byok.Store.Schema

namespace Byok

open Library

/-! ### Tables -/

/-- Columns of a row of `runs`. -/
structure TaskRun where
  conversationId : ConversationId
  parentRunId : Option RunId
  parentToolCallId : Option String
  status : RunStatus
deriving DecidableEq, Repr

/-- Columns of a row of `tool_round_calls`. `arguments` is what `arguments_json` holds. -/
structure TaskCall where
  arguments : Value
  status : ToolCallStatus
  completedAtMs : Option Int
deriving DecidableEq, Repr

/-- The tables. A call is of a round, and a round of a run, by the foreign keys. -/
structure TaskTables where
  runs : Table RunId TaskRun
  toolRounds : Table ToolRoundId RunId
  toolRoundCalls : Table (ToolRoundId × String) TaskCall
  callsOfRounds : ∀ key ∈ toolRoundCalls.keys, key.1 ∈ toolRounds.keys
  roundsOfRuns : ∀ entry ∈ toolRounds.entries, entry.2 ∈ runs.keys

/-- A row that the joins of `background_task` give. -/
structure TaskRow where
  runId : RunId
  conversationId : ConversationId
  arguments : Value
  completedAtMs : Option Int
deriving DecidableEq, Repr

namespace TaskTables

/-- There is nothing in the tables. -/
def empty : TaskTables := ⟨∅, ∅, ∅, nofun, nofun⟩

/-! ### `background_task` -/

/-- A call with its round and its run. -/
def joined (tables : TaskTables) (roundId : ToolRoundId) (call : TaskCall) : Option TaskRow := do
  let runId ← tables.toolRounds.lookup roundId
  let run ← tables.runs.lookup runId
  return ⟨runId, run.conversationId, call.arguments, call.completedAtMs⟩

/-- The completed calls with an id, each with its round and its run. -/
def completedTasks (tables : TaskTables) (callId : String) : List TaskRow :=
  tables.toolRoundCalls.entries.filterMap fun entry =>
    if entry.1.2 = callId ∧ entry.2.status = .completed then tables.joined entry.1.1 entry.2 else none

/-- The order of `completed_at_ms`. `NULL` comes before all instants. -/
def notLater : Option Int → Option Int → Bool
  | none, _ => true
  | some _, none => false
  | some first, some second => first ≤ second

/-- A row may be the first one, `ORDER BY completed_at_ms DESC`. -/
def isNewest (rows : List TaskRow) (row : TaskRow) : Bool :=
  rows.contains row && rows.all fun other => notLater other.completedAtMs row.completedAtMs

/-- What the query gives. Rows of one instant come in any order. -/
def gives (tables : TaskTables) (callId : String) : Option TaskRow → Bool
  | some row => isNewest (tables.completedTasks callId) row
  | none => (tables.completedTasks callId).isEmpty

/-- The description of a Task call. -/
def described (arguments : Value) : Option String :=
  ((arguments.get "description").bind Value.asStr).filter (· ≠ "")

/-- `background_task`, with the row that its query gives. -/
def backgroundTask (row : Option TaskRow) : Option (ConversationId × String) :=
  row.bind fun row => (described row.arguments).map fun title => (row.conversationId, title)

/-! ### `has_running_background_subagents` -/

def hasRunningBackgroundSubagents (tables : TaskTables) (runId : RunId) : Bool :=
  tables.runs.entries.any fun child =>
    child.2.parentRunId = some runId && child.2.status = .running &&
      tables.toolRoundCalls.entries.any fun call =>
        child.2.parentToolCallId = some call.1.2 && call.2.status = .completed

/-! ### What the queries find -/

variable {tables : TaskTables} {callId : String}

theorem exists_joined {roundId : ToolRoundId} {call : TaskCall}
    (stored : tables.toolRoundCalls.lookup (roundId, callId) = some call) :
    ∃ row, tables.joined roundId call = some row ∧ row.arguments = call.arguments := by
  have round : roundId ∈ tables.toolRounds :=
    tables.callsOfRounds (roundId, callId) (AList.lookup_isSome.mp (by rw [stored]; rfl))
  obtain ⟨runId, found⟩ := Option.isSome_iff_exists.mp (AList.lookup_isSome.mpr round)
  have run : runId ∈ tables.runs := tables.roundsOfRuns ⟨roundId, runId⟩ (AList.mem_lookup_iff.mp found)
  obtain ⟨row, owner⟩ := Option.isSome_iff_exists.mp (AList.lookup_isSome.mpr run)
  refine ⟨⟨runId, row.conversationId, call.arguments, call.completedAtMs⟩, ?_, rfl⟩
  rw [joined, found, Option.bind_eq_bind, Option.bind_some, owner]
  rfl

theorem mem_completedTasks {row : TaskRow} :
    row ∈ tables.completedTasks callId ↔ ∃ roundId call, tables.toolRoundCalls.lookup (roundId, callId) = some call ∧
      call.status = .completed ∧ tables.joined roundId call = some row := by
  rw [completedTasks, List.mem_filterMap]
  constructor
  · rintro ⟨⟨⟨roundId, id⟩, call⟩, stored, found⟩
    rw [Option.ite_none_right_eq_some] at found
    obtain ⟨⟨rfl, completed⟩, row⟩ := found
    exact ⟨roundId, call, AList.mem_lookup_iff.mpr stored, completed, row⟩
  · rintro ⟨roundId, call, stored, completed, row⟩
    exact ⟨⟨(roundId, callId), call⟩, AList.mem_lookup_iff.mp stored, by rw [if_pos ⟨rfl, completed⟩, row]⟩

theorem completedTasks_ne_nil : tables.completedTasks callId ≠ [] ↔
    ∃ roundId call, tables.toolRoundCalls.lookup (roundId, callId) = some call ∧ call.status = .completed := by
  constructor
  · intro some
    obtain ⟨row, listed⟩ := List.exists_mem_of_ne_nil _ some
    obtain ⟨roundId, call, stored, completed, -⟩ := mem_completedTasks.mp listed
    exact ⟨roundId, call, stored, completed⟩
  · rintro ⟨roundId, call, stored, completed⟩
    obtain ⟨row, found, -⟩ := exists_joined stored
    exact List.ne_nil_of_mem (mem_completedTasks.mpr ⟨roundId, call, stored, completed, found⟩)

theorem backgroundTask_found {row : Option TaskRow} {conversation : ConversationId} {title : String}
    (given : tables.gives callId row = true) (found : backgroundTask row = some (conversation, title)) :
    ∃ task ∈ tables.completedTasks callId, task.conversationId = conversation ∧ described task.arguments = some title := by
  obtain ⟨task, rfl, named⟩ := Option.bind_eq_some_iff.mp found
  obtain ⟨_, description, same⟩ := Option.map_eq_some_iff.mp named
  obtain ⟨rfl, rfl⟩ := Prod.mk.inj same
  rw [gives, isNewest, Bool.and_eq_true, List.contains_iff_mem] at given
  exact ⟨task, given.1, rfl, description⟩

theorem backgroundTask_none {row : Option TaskRow} (given : tables.gives callId row = true)
    (none : backgroundTask row = none) :
    tables.completedTasks callId = [] ∨ ∃ task ∈ tables.completedTasks callId, described task.arguments = Option.none := by
  cases row with
  | none => exact .inl (List.isEmpty_iff.mp given)
  | some task =>
    rw [gives, isNewest, Bool.and_eq_true, List.contains_iff_mem] at given
    exact .inr ⟨task, given.1, Option.map_eq_none_iff.mp none⟩

theorem described_ne_empty {arguments : Value} {title : String} (is : described arguments = some title) : title ≠ "" :=
  of_decide_eq_true (Option.filter_eq_some_iff.mp is).2

/-- **A running child counts for a run when a call with the id of the child's own call has completed.** -/
theorem hasRunningBackgroundSubagents_iff {runId : RunId} :
    tables.hasRunningBackgroundSubagents runId = true ↔
      ∃ childId child callId, tables.runs.lookup childId = some child ∧ child.parentRunId = some runId ∧
        child.status = .running ∧ child.parentToolCallId = some callId ∧ tables.completedTasks callId ≠ [] := by
  simp only [hasRunningBackgroundSubagents, List.any_eq_true, Bool.and_eq_true, decide_eq_true_eq, completedTasks_ne_nil]
  constructor
  · rintro ⟨⟨childId, child⟩, stored, ⟨parent, running⟩, ⟨⟨roundId, callId⟩, call⟩, called, own, completed⟩
    exact ⟨childId, child, callId, AList.mem_lookup_iff.mpr stored, parent, running, own, roundId, call,
      AList.mem_lookup_iff.mpr called, completed⟩
  · rintro ⟨childId, child, callId, stored, parent, running, own, roundId, call, called, completed⟩
    exact ⟨⟨childId, child⟩, AList.mem_lookup_iff.mp stored, ⟨parent, running⟩, ⟨(roundId, callId), call⟩,
      AList.mem_lookup_iff.mp called, own, completed⟩

end TaskTables

end Byok
