/-
**What a finished background task is compiled to.** `server/src/cursor/compile/insert_messages.rs`, and `wakeup_message`
of `break_messages.rs`.

The completions of an action come from the client, or are one that the server makes of a subagent that has ended.

* `project` — the completions become one context, in the order of their identities. Logging is left out.
* `project_subagentCompletion` — the completion that the server makes is never refused.
-/

import Byok.Model.Message
import Mathlib.Data.List.Sort

namespace Byok.Cursor.Compile

def followUp : String :=
  "Perform any necessary follow-up actions in response to the subagent completion above. " ++
  "If no follow-up work is needed, no further action is required. " ++
  "If you mention an agent or subagent in your response, link it with the `[Name](id)` " ++
  "Don't use generic label such as `[agent]`, `[worker]`, or `[subagent]`. " ++
  "For cloud subagents, when the agent has edited code, link to `[Review](bc-id#changes)`, " ++
  "or, if you know the exact added and deleted line counts, `[Review +A −D](bc-id#changes)`, " ++
  "replacing A and D with those counts. Never write A or D literally. " ++
  "Use `[Try Live](bc-id#desktop)` only when the agent used computer use. " ++
  "Don't repeat the same confirmation every time."

def shellFollowUp : String :=
  "Briefly inform the user about the task result and perform any follow-up actions (if needed). " ++
  "If there's no follow-ups needed, don't explicitly say that."

/-! ### Enumerations of the protocol -/

inductive BackgroundTaskKind where
  | unspecified
  | shell
  | subagent
deriving DecidableEq, Repr

namespace BackgroundTaskKind

def toInt : BackgroundTaskKind → Int
  | .unspecified => 0
  | .shell => 1
  | .subagent => 2

def tryFrom (value : Int) : Option BackgroundTaskKind :=
  [unspecified, shell, subagent].find? fun kind => kind.toInt = value

def asStrName : BackgroundTaskKind → String
  | .unspecified => "BACKGROUND_TASK_KIND_UNSPECIFIED"
  | .shell => "BACKGROUND_TASK_KIND_SHELL"
  | .subagent => "BACKGROUND_TASK_KIND_SUBAGENT"

end BackgroundTaskKind

inductive BackgroundTaskStatus where
  | unspecified
  | success
  | error
  | aborted
deriving DecidableEq, Repr

namespace BackgroundTaskStatus

def toInt : BackgroundTaskStatus → Int
  | .unspecified => 0
  | .success => 1
  | .error => 2
  | .aborted => 3

def tryFrom (value : Int) : Option BackgroundTaskStatus :=
  [unspecified, success, error, aborted].find? fun status => status.toInt = value

theorem tryFrom_toInt (status : BackgroundTaskStatus) : tryFrom status.toInt = some status := by
  cases status <;> rfl

/-- `status_name`. It is not called with a status that is unspecified. -/
def statusName : BackgroundTaskStatus → String
  | .success => "success"
  | .error => "error"
  | .aborted => "aborted"
  | .unspecified => ""

end BackgroundTaskStatus

inductive BackgroundTaskCompletionReason where
  | unspecified
  | taskFinished
  | taskProgress
deriving DecidableEq, Repr

namespace BackgroundTaskCompletionReason

def toInt : BackgroundTaskCompletionReason → Int
  | .unspecified => 0
  | .taskFinished => 1
  | .taskProgress => 2

def tryFrom (value : Int) : Option BackgroundTaskCompletionReason :=
  [unspecified, taskFinished, taskProgress].find? fun reason => reason.toInt = value

end BackgroundTaskCompletionReason

/-- `BackgroundTaskCompletion`, without the context of its notification. -/
structure BackgroundTaskCompletion where
  taskId : String
  kind : Int
  status : Int
  title : String
  detail : Option String
  outputPath : Option String
  threadId : Option String
  reason : Int
  subagentId : Option String
  toolCallId : Option String
deriving DecidableEq, Repr

/-! ### Contexts -/

/-- A text that is not empty. -/
def nonempty (value : Option String) : Option String := value.filter (· ≠ "")

def status (completion : BackgroundTaskCompletion) : Except Error BackgroundTaskStatus :=
  match BackgroundTaskStatus.tryFrom completion.status with
  | none => .error (.protocol ("unknown background task status: " ++ toString completion.status))
  | some .unspecified => .error (.protocol "background task completion has unspecified status")
  | some status => .ok status

def optionalField (name : String) (value : Option String) : List String :=
  match nonempty value with
  | some value => [name ++ ": " ++ value]
  | none => []

/-- The name of a kind in a context. -/
def kindName : BackgroundTaskKind → String
  | .shell => "shell"
  | .subagent => "subagent"
  | .unspecified => ""

/-- The lines of a context. -/
def contextFields (completion : BackgroundTaskCompletion) (kind : BackgroundTaskKind) (status : BackgroundTaskStatus)
    (agentId : Option String) : List String :=
  ["kind: " ++ kindName kind, "status: " ++ status.statusName, "task_id: " ++ completion.taskId,
    "title: " ++ completion.title] ++
    optionalField "tool_call_id" completion.toolCallId ++ optionalField "agent_id" agentId ++
    optionalField "detail" completion.detail ++ optionalField "output_path" completion.outputPath ++
    optionalField "thread_id" completion.threadId

/-- The text of a context. -/
def contextText (completion : BackgroundTaskCompletion) (kind : BackgroundTaskKind) (status : BackgroundTaskStatus)
    (agentId : Option String) : String :=
  "<system_notification>\nThe following task has finished. If you were already aware, " ++
    "ignore this notification and do not restate prior responses.\n\n<task>\n" ++
    "\n".intercalate (contextFields completion kind status agentId) ++ "\n</task>\n</system_notification>"

def completionContext (completion : BackgroundTaskCompletion) (kind : BackgroundTaskKind) (agentId : Option String) :
    Except Error String := do
  return contextText completion kind (← status completion) agentId

/-! ### Batches -/

/-- The simulated message of a turn, as far as it is filled in. -/
structure SimulatedMessage where
  text : String
  messageId : String
  mode : Int
  title : String
  taskId : String
deriving DecidableEq, Repr

structure Projection where
  context : String
  turnUser : SimulatedMessage
deriving DecidableEq, Repr

/-- What the loop of `project` has seen. The completions are in the order of their identities, with their contexts. -/
structure Batch where
  completions : List (String × BackgroundTaskCompletion × String)
  hasShell : Bool
  hasSubagent : Bool
deriving DecidableEq, Repr

/-- The agent of a completion that has finished. -/
def agentId (completion : BackgroundTaskCompletion) (kind : BackgroundTaskKind) : Except Error (Option String) :=
  if kind = .subagent then
    match nonempty completion.subagentId with
    | some id => .ok (some id)
    | none => .error (.protocol "background subagent completion has no subagent_id")
  else .ok none

/-- The body of the loop for a task that has finished. -/
def Batch.finished (batch : Batch) (completion : BackgroundTaskCompletion) (kind : BackgroundTaskKind) :
    Except Error Batch := do
  if completion.taskId = "" ∨ completion.title = "" then
    .error (.protocol "background task completion requires task_id and title")
  let agentId ← agentId completion kind
  match nonempty completion.toolCallId with
  | none => .error (.protocol "background task completion has no tool_call_id")
  | some toolCallId =>
    let identity := kind.asStrName ++ ":" ++ agentId.getD completion.taskId ++ ":" ++ toolCallId
    let context ← completionContext completion kind agentId
    if batch.completions.any fun entry => entry.1 = identity then
      .error (.protocol ("duplicate background task completion: " ++ identity))
    else
      .ok {
        completions := batch.completions.orderedInsert (fun first second => first.1 ≤ second.1)
          (identity, completion, context)
        hasShell := batch.hasShell || kind = .shell
        hasSubagent := batch.hasSubagent || kind = .subagent }

/-- The loop of `project`. Notifications of progress are passed by. -/
def Batch.add (batch : Batch) (completion : BackgroundTaskCompletion) : Except Error Batch :=
  match BackgroundTaskKind.tryFrom completion.kind with
  | none => .error (.protocol ("unknown background task kind: " ++ toString completion.kind))
  | some .unspecified =>
    .error (.protocol ("background task completion has invalid kind: " ++
      BackgroundTaskKind.unspecified.asStrName))
  | some kind =>
    match BackgroundTaskCompletionReason.tryFrom completion.reason with
    | none => .error (.protocol ("unknown background task completion reason: " ++ toString completion.reason))
    | some .taskFinished => batch.finished completion kind
    | some _ => .ok batch

/-- The instruction behind the contexts. -/
def Batch.text (batch : Batch) : String :=
  match batch.hasShell, batch.hasSubagent with
  | true, false => shellFollowUp
  | true, true => shellFollowUp ++ "\n\n" ++ followUp
  | false, _ => followUp

def project (action : List BackgroundTaskCompletion) (mode : Int) : Except Error (Option Projection) := do
  if action = [] then .error (.protocol "background task completion action contains no completion")
  let batch ← action.foldlM Batch.add ⟨[], false, false⟩
  match batch.completions with
  | [] => return none
  | (_, first, _) :: _ =>
    return some {
      context := "\n\n".intercalate (batch.completions.map fun entry => entry.2.2)
      turnUser := {
        text := batch.text
        messageId := "background-completed:" ++ ":".intercalate (batch.completions.map Prod.fst)
        mode
        title := first.title
        taskId := first.taskId } }

/-! ### The server's own completions -/

/-- The completion of a subagent that has ended. -/
def finishedSubagent (subagentId toolCallId title : String) (detail : Option String) (status : BackgroundTaskStatus) :
    BackgroundTaskCompletion where
  taskId := subagentId
  kind := BackgroundTaskKind.subagent.toInt
  status := status.toInt
  title
  detail
  outputPath := none
  threadId := none
  reason := BackgroundTaskCompletionReason.taskFinished.toInt
  subagentId := some subagentId
  toolCallId := some toolCallId

def subagentCompletion (subagentId toolCallId title : String) (detail : Option String) (status : BackgroundTaskStatus) :
    List BackgroundTaskCompletion :=
  [finishedSubagent subagentId toolCallId title detail status]

/-- The identity of a completion of a subagent. -/
def subagentIdentity (subagentId toolCallId : String) : String :=
  BackgroundTaskKind.subagent.asStrName ++ ":" ++ subagentId ++ ":" ++ toolCallId

/-- `wakeup_message`, at a time. -/
def wakeupMessage (timestamp eventId context : String) : CanonicalMessage where
  messageId := "runtime:" ++ eventId
  role := .user
  origin := .runtime
  content := .parts [.text ("<timestamp>" ++ timestamp ++ "</timestamp>\n" ++ trim context ++ "\n<user_query>" ++ followUp ++
    "</user_query>")]
  runtimeEventId := some eventId

/-! ### It is not refused -/

theorem nonempty_some {value : String} (some : value ≠ "") : nonempty (Option.some value) = Option.some value := by
  rw [nonempty, Option.filter_some, if_pos (decide_eq_true some)]

theorem status_toInt {completion : BackgroundTaskCompletion} {known : BackgroundTaskStatus}
    (is : completion.status = known.toInt) (specified : known ≠ .unspecified) : status completion = .ok known := by
  rw [status, is, BackgroundTaskStatus.tryFrom_toInt]
  cases known with
  | unspecified => exact absurd rfl specified
  | success | error | aborted => rfl

variable {subagentId toolCallId title : String} {detail : Option String} {known : BackgroundTaskStatus} {mode : Int}

theorem completionContext_finished (specified : known ≠ .unspecified) :
    completionContext (finishedSubagent subagentId toolCallId title detail known) .subagent (some subagentId) =
      .ok (contextText (finishedSubagent subagentId toolCallId title detail known) .subagent known (some subagentId)) := by
  rw [completionContext, status_toInt rfl specified]
  rfl

theorem add_finished (agent : subagentId ≠ "") (call : toolCallId ≠ "") (titled : title ≠ "")
    (specified : known ≠ .unspecified) :
    Batch.add ⟨[], false, false⟩ (finishedSubagent subagentId toolCallId title detail known) =
      .ok ⟨[(subagentIdentity subagentId toolCallId, finishedSubagent subagentId toolCallId title detail known,
        contextText (finishedSubagent subagentId toolCallId title detail known) .subagent known (some subagentId))],
        false, true⟩ := by
  show Batch.finished _ (finishedSubagent subagentId toolCallId title detail known) .subagent = _
  have named : ¬ ((finishedSubagent subagentId toolCallId title detail known).taskId = "" ∨
      (finishedSubagent subagentId toolCallId title detail known).title = "") := not_or.mpr ⟨agent, titled⟩
  have whose : agentId (finishedSubagent subagentId toolCallId title detail known) .subagent = .ok (some subagentId) := by
    rw [agentId, if_pos rfl, show (finishedSubagent _ _ _ _ _).subagentId = some subagentId from rfl, nonempty_some agent]
  have called : nonempty (finishedSubagent subagentId toolCallId title detail known).toolCallId = some toolCallId :=
    nonempty_some call
  simp only [Batch.finished, if_neg named, whose, called]
  show (completionContext _ .subagent (some subagentId) >>= _) = _
  rw [completionContext_finished specified]
  rfl

/-- **The completion that the server makes of a subagent is never refused,** and has the identity of the client's. -/
theorem project_subagentCompletion (agent : subagentId ≠ "") (call : toolCallId ≠ "") (titled : title ≠ "")
    (specified : known ≠ .unspecified) :
    ∃ projection, project (subagentCompletion subagentId toolCallId title detail known) mode = .ok (some projection) ∧
      projection.context =
        contextText (finishedSubagent subagentId toolCallId title detail known) .subagent known (some subagentId) ∧
      projection.turnUser.messageId = "background-completed:" ++ subagentIdentity subagentId toolCallId := by
  have added := @add_finished subagentId toolCallId title detail known agent call titled specified
  unfold project subagentCompletion
  rw [if_neg (List.cons_ne_nil _ _), List.foldlM_cons, added]
  exact ⟨_, rfl, rfl, rfl⟩

end Byok.Cursor.Compile
