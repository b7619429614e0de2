/-
**The history that a compaction leaves behind.** `server/src/run/compaction.rs`.

A compaction keeps the latest request context, a summary, the newest turns of the conversation, and the
run's own initial messages. What it costs to keep a turn is a matter of token counts, which come from
floating point ratios and from the model's configuration; they are parameters here (`Estimates`).

* `partition` — what may be compacted, and the request context that stays.
* `retainedTail` — the newest turns, walked backwards within a budget.
* `replacement` — the whole history.
-/

import Byok.Model.TokenCount
import Byok.Model.Run

namespace Byok

open Library

/-- What a compaction is told about sizes: the token estimate of projected messages and of the prompt
alone, the window of the model and what `input_budget` makes of it, `calibrate_budget`, and the
settings. -/
structure Estimates where
  tokens : List ProjectedMessage → Nat
  promptTokens : Nat
  contextWindowTokens : Option Nat
  inputBudget : Option Nat
  calibrateBudget : Nat → Nat
  retentionPercent : Nat
  maxRetainedTokens : Option Nat

inductive Retention where
  | window
  | none
deriving DecidableEq, Repr

structure RetentionBudget where
  soft : Nat
  hard : Nat
deriving DecidableEq, Repr

/-! ### Kinds of messages -/

def isSupersededSummary (message : CanonicalMessage) : Bool :=
  message.runtimeEventId.any fun eventId => startsWith eventId "summary:"

def droppedFromTail (message : CanonicalMessage) : Bool :=
  message.role = .user && message.origin = .prompt || isSupersededSummary message

def isTurnStart (message : CanonicalMessage) : Bool :=
  message.role = .user && message.origin ≠ .prompt && !isSupersededSummary message

/-- `message.message_id.starts_with("request-context:")`. -/
def isRequestContext (message : CanonicalMessage) : Bool :=
  startsWith message.messageId "request-context:"

def summaryMessage (eventId summary : String) : CanonicalMessage :=
  { messageId := "runtime:" ++ eventId
    role := .user
    origin := .runtime
    content := .parts [.text ("<conversation_summary>\n" ++ summary ++ "\n</conversation_summary>")]
    runtimeEventId := some eventId }

def latestSummaryMessage (messages : List CanonicalMessage) : Option CanonicalMessage :=
  messages.reverse.find? isSupersededSummary

def summaryText (message : CanonicalMessage) : Option String :=
  match message.content with
  | .parts parts =>
    let text := trim (String.join (parts.filterMap fun part => match part with
      | .text text => some text
      | .image _ _ => none))
    let text := (stripPrefix text "<conversation_summary>").getD text
    let text := trim ((stripSuffix text "</conversation_summary>").getD text)
    if text.isEmpty then none else some text
  | .assistant _ _ _ _ _ | .toolResult _ => none

/-! ### The parts of the history -/

/-- `rposition` of the latest request context, as the messages before it, itself, and those after. -/
def splitRequestContext : List CanonicalMessage →
    Option (List CanonicalMessage × CanonicalMessage × List CanonicalMessage)
  | [] => none
  | message :: rest =>
    match splitRequestContext rest with
    | some (before, latest, after) => some (message :: before, latest, after)
    | none => if isRequestContext message then some ([], message, rest) else none

/-- `partition`: what may be compacted, and the latest request context when it is not one of the
current messages. -/
def partition (messages : List CanonicalMessage) (currentIds : List String) :
    List CanonicalMessage × Option CanonicalMessage :=
  let others := fun messages : List CanonicalMessage =>
    messages.filter fun message => message.messageId ∉ currentIds
  match splitRequestContext messages with
  | none => (others messages, none)
  | some (before, latest, after) =>
    (others (before ++ after), if latest.messageId ∈ currentIds then none else some latest)

def projectedTokens (estimates : Estimates) (messages : List CanonicalMessage) : Except Error Nat :=
  (projectMessages messages).map estimates.tokens

def retentionBudget (estimates : Estimates) (head after : List CanonicalMessage) :
    Except Error (Option RetentionBudget) := do
  let some window := estimates.contextWindowTokens.filter (0 < ·) | return none
  let some inputBudget := estimates.inputBudget | return none
  let headTokens ← projectedTokens estimates head
  let window := estimates.calibrateBudget window
  let inputBudget := estimates.calibrateBudget inputBudget
  let soft := window * estimates.retentionPercent / 100 - headTokens
  let soft := match estimates.maxRetainedTokens with
    | some cap => min soft (estimates.calibrateBudget cap)
    | none => soft
  let hard := inputBudget - estimates.promptTokens - headTokens - (← projectedTokens estimates after)
  let hard := match estimates.maxRetainedTokens with
    | some cap => min hard (estimates.calibrateBudget cap)
    | none => hard
  return some ⟨soft, hard⟩

def turnStarts (messages : List CanonicalMessage) : List Nat :=
  messages.findIdxs isTurnStart

/-- Where a tail may start: at a turn, or at the first message that may be kept when no turn starts in
the history. -/
def tailStarts (compactable : List CanonicalMessage) : List Nat :=
  if turnStarts compactable = [] then
    (compactable.findIdx? fun message => !droppedFromTail message).toList
  else turnStarts compactable

/-- The turns with their ends, the newest first. -/
def turnSpans (starts : List Nat) (length : Nat) : List (Nat × Nat) :=
  (starts.zip (starts.tail ++ [length])).reverse

/-- The walk of `retained_tail` over the turns, the newest first, while they fit. -/
def keepFrom (estimates : Estimates) (compactable : List CanonicalMessage) (target : Nat) :
    List (Nat × Nat) → Nat → Option Nat → Except Error (Option Nat)
  | [], _, kept => .ok kept
  | (start, stop) :: older, total, kept => do
    let tokens ← projectedTokens estimates ((compactable.take stop).drop start)
    if target < saturatingAdd total tokens then return kept
    keepFrom estimates compactable target older (saturatingAdd total tokens) (some start)

/-- The tail from a start on, without what is dropped from it. -/
def tailFrom (compactable : List CanonicalMessage) (start : Nat) : List CanonicalMessage :=
  (compactable.drop start).filter fun message => !droppedFromTail message

def retainedTail (estimates : Estimates) (compactable : List CanonicalMessage)
    (budget : RetentionBudget) : Except Error (List CanonicalMessage) := do
  if (← projectedTokens estimates compactable) ≤ budget.soft then return []
  let starts := tailStarts compactable
  let some newest := starts.getLast? | return []
  let kept ← keepFrom estimates compactable (min budget.soft budget.hard)
    (turnSpans starts compactable.length) 0 none
  match kept with
  | some start => return tailFrom compactable start
  | none =>
    if (← projectedTokens estimates (compactable.drop newest)) ≤ budget.hard then
      return tailFrom compactable newest
    else return []

/-! ### Images -/

def maxRetainedImages : Nat := 2

def ContentPart.isImage : ContentPart → Bool
  | text _ => false
  | image _ _ => true

def countImages (parts : List ContentPart) : Nat := parts.countP ContentPart.isImage

/-- `offload_parts`, from the last part to the first. -/
def offloadParts (remaining : Nat) : List ContentPart → List ContentPart × Nat
  | [] => ([], remaining)
  | part :: parts =>
    let (done, remaining) := offloadParts remaining parts
    if part.isImage then
      if 0 < remaining then (part :: done, remaining - 1)
      else (.text "[image omitted during compaction]" :: done, 0)
    else (part :: done, remaining)

/-- One message of `offload_old_tail_images`: only the parts that are not serialised are changed. -/
def offloadMessage (remaining : Nat) (message : CanonicalMessage) : CanonicalMessage × Nat :=
  match message.content with
  | .parts parts => (message, remaining - countImages parts)
  | .assistant _ _ _ _ _ => (message, remaining)
  | .toolResult result =>
    let (providerParts, remaining) :=
      offloadParts (if result.image.isSome then remaining - 1 else remaining) result.providerParts
    ({ message with content := .toolResult { result with providerParts } }, remaining)

/-- `offload_old_tail_images`, from the newest message to the oldest. -/
def offloadTail (remaining : Nat) : List CanonicalMessage → List CanonicalMessage × Nat
  | [] => ([], remaining)
  | message :: messages =>
    let (done, remaining) := offloadTail remaining messages
    let (message, remaining) := offloadMessage remaining message
    (message :: done, remaining)

def offloadOldTailImages (tail : List CanonicalMessage) : List CanonicalMessage :=
  (offloadTail maxRetainedImages tail).1

/-! ### The replacement -/

def replacement (estimates : Estimates) (prepared : PreparedRun) (messages : List CanonicalMessage)
    (summary : CanonicalMessage) (retention : Retention) : Except Error (List CanonicalMessage) := do
  let currentIds := prepared.initialMessages.map (·.messageId)
  let (compactable, retained) := partition messages currentIds
  let head := retained.toList ++ [summary]
  let tail ← match retention with
    | .none => pure []
    | .window => do
      match ← retentionBudget estimates head prepared.initialMessages with
      | some budget => retainedTail estimates compactable budget
      | none => pure []
  return head ++ offloadOldTailImages tail ++ prepared.initialMessages

theorem replacement_unbounded {estimates : Estimates} (prepared : PreparedRun)
    (messages : List CanonicalMessage) (summary : CanonicalMessage) (retention : Retention)
    (window : estimates.contextWindowTokens = none) :
    replacement estimates prepared messages summary retention = .ok
      ((partition messages (prepared.initialMessages.map (·.messageId))).2.toList ++ [summary] ++
        prepared.initialMessages) := by
  have budget : ∀ head, retentionBudget estimates head prepared.initialMessages = .ok none := by
    intro head
    rw [retentionBudget, window]
    rfl
  have offloaded : offloadOldTailImages [] = [] := rfl
  unfold replacement
  cases retention with
  | none =>
    simp only [pure_bind, offloaded, List.append_nil]
    rfl
  | window =>
    simp only [budget, except_ok_bind, pure_bind, offloaded, List.append_nil]
    rfl

end Byok
