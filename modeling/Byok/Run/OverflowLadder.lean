/-
**Compactions between two model calls that succeed.** `OverflowEpisode` of `server/src/run/engine.rs`.

A prompt that is over the limit climbs a ladder: a compaction that keeps the recent turns, one that keeps the summary
alone, and then no more. The count is set in three places of the loop `'model`, and a model call that succeeds sets it
back.

* `Milestone` — what a run does with its history: a model call that succeeded, a refusal over the limit, the start of a
  compaction by the preflight check, and a compaction that is committed.
* `Climb` — what a step does to the place of the run on the ladder (`climb_of_step`).
* `compaction_ladder` — between two model calls that succeed, the compactions are the first steps of the ladder.
-/

import Byok.Library.Watched
import Byok.Run.LateResults

set_option linter.unusedSectionVars false

namespace Byok

open Library List

variable {D : Type} [DecidableEq D] [ChainHash D]

/-! ### What a run does with its history -/

/-- A model call succeeded, a model call was refused over the limit, the preflight check starts a compaction, a compaction
is committed. -/
inductive Milestone where
  | answered
  | refused
  | preflight
  | compacted (retention : Retention)
deriving DecidableEq, Repr

/-- What the committed compaction keeps. -/
def Milestone.retention? : Milestone → Option Retention
  | compacted retention => some retention
  | answered | refused | preflight => none

/-- Whether a model call succeeded. -/
def Milestone.succeeded : Milestone → Bool
  | answered => true
  | refused | preflight | compacted _ => false

/-- The retentions of the committed compactions. -/
def compactions (seen : List Milestone) : List Retention := seen.filterMap Milestone.retention?

/-- What a step of the code does with the history. A replacement that is committed is announced, and a manual one goes on to
the closing of the run; where the store refuses it, the run stops. -/
def EnginePc.milestone (before : EnginePc) (event : EngineEvent) (after : EnginePc) : Option Milestone :=
  match before, event with
  | .streaming _, .answered _ _ => some .answered
  | .streaming _, .refused _ overLimit => if overLimit then some .refused else none
  | .cycle, .overBudget =>
    match after with
    | .announcing .usageSnapshot (.compacting _) => some .preflight
    | _ => none
  | .replacing job, .summary _ _ _ =>
    match after with
    | .announcing (.messagesCommitted .compaction) _ => some (.compacted job.retention)
    | _ => none
  | .manualReplacing _, .summary _ _ _ =>
    match after with
    | .finalizing _ | .append _ _ => some (.compacted .window)
    | _ => none
  | _, _ => none

/-- What is seen of a step of the run. -/
def EngineState.milestone (before : EngineState D) : EngineLabel → EngineState D → Option Milestone
  | .code _ event, after => before.pc.milestone event after.pc
  | .submit _ _ _, _ | .toolResult _, _ | .cancel, _ | .store _, _ => none

/-- The ladder: what the compactions keep, one after the other. -/
def ladder : List Retention := [.window, .none]

/-- What a run may do with its history between two model calls that succeed. -/
structure Bounded (seen : List Milestone) : Prop where
  climbs : compactions seen <+: ladder
  refused : ∀ front rest, seen = front ++ .refused :: rest → 2 ≤ (compactions front).length → compactions rest = []
  preflight : ∀ front : List Milestone, front ++ [.preflight] <+: seen → compactions front = []

/-! ### The ladder -/

/-- Where a run is on the ladder: between compactions, in one that was started by the preflight check or by a refusal, in
the compaction that was asked for, or at its end. -/
inductive Rung where
  | free
  | compacting (preflight : Bool) (retention : Retention)
  | manual
  | closed
deriving DecidableEq, Repr

/-- What a step does to the place on the ladder and to the count, with what is seen of it. -/
inductive Climb : Rung → Nat → Option Milestone → Rung → Nat → Prop
  | rest (rung : Rung) (count : Nat) : Climb rung count none rung count
  | stop (rung : Rung) (count : Nat) : Climb rung count none .closed count
  | answered (count : Nat) : Climb .free count (some .answered) .free 0
  | refused {rung : Rung} (count : Nat) (ends : rung = .free ∨ rung = .closed) : Climb .free count (some .refused) rung count
  | climbs {retention : Retention} {count : Nat} (next : OverflowEpisode.retention ⟨count⟩ = some retention) :
      Climb .free count (some .refused) (.compacting false retention) (count + 1)
  | preflight : Climb .free 0 (some .preflight) (.compacting true .window) 0
  | compacted (preflight : Bool) (retention : Retention) (count : Nat) :
      Climb (.compacting preflight retention) count (some (.compacted retention)) .free
        (if preflight then max count 1 else count)

/-- What the compactions since the last success are, at a place on the ladder. -/
def Climbed (kept : List Retention) (count : Nat) : Rung → Prop
  | .free => kept <+: ladder ∧ count = kept.length
  | .compacting preflight retention => kept ++ [retention] <+: ladder ∧
      if preflight then kept = [] ∧ count = 0 else count = kept.length + 1
  | .manual => False
  | .closed => kept <+: ladder

theorem retention_ladder (count : Nat) : OverflowEpisode.retention ⟨count⟩ = ladder[count]? := by
  rcases count with _ | _ | count <;> rfl

theorem Climbed.prefix {kept : List Retention} {count : Nat} {rung : Rung} (climbed : Climbed kept count rung) :
    kept <+: ladder := by
  cases rung with
  | free => exact climbed.1
  | compacting preflight retention => exact (prefix_append _ _).trans climbed.1
  | manual => exact climbed.elim
  | closed => exact climbed

theorem ladder_next {kept : List Retention} {retention : Retention} (climbed : kept <+: ladder)
    (next : OverflowEpisode.retention ⟨kept.length⟩ = some retention) : kept ++ [retention] <+: ladder := by
  rw [retention_ladder] at next
  obtain ⟨rest, whole⟩ := climbed
  rw [← whole, getElem?_append_right (Nat.le_refl _), Nat.sub_self] at next
  cases rest with
  | nil => cases next
  | cons first rest =>
    cases next
    exact ⟨rest, by rw [← whole, append_assoc, singleton_append]⟩

@[simp] theorem compactions_append (seen more : List Milestone) :
    compactions (seen ++ more) = compactions seen ++ compactions more := filterMap_append

@[simp] theorem compactions_refused : compactions [.refused] = [] := rfl

@[simp] theorem compactions_preflight : compactions [.preflight] = [] := rfl

@[simp] theorem compactions_compacted (retention : Retention) : compactions [.compacted retention] = [retention] := rfl

theorem Climbed.step {seen : List Milestone} {rung rung' : Rung} {count count' : Nat} {milestone : Option Milestone}
    (climbed : Climbed (compactions seen) count rung) (climb : Climb rung count milestone rung' count') :
    Climbed (compactions (sinceThen Milestone.succeeded seen milestone)) count' rung' := by
  cases climb with
  | rest => exact climbed
  | stop => exact climbed.prefix
  | answered => exact ⟨List.nil_prefix, rfl⟩
  | refused _ ends =>
    rw [show compactions _ = compactions seen by simp [sinceThen, Milestone.succeeded]]
    rcases ends with rfl | rfl
    · exact climbed
    · exact climbed.prefix
  | climbs next =>
    rw [show compactions _ = compactions seen by simp [sinceThen, Milestone.succeeded]]
    obtain ⟨part, rfl⟩ := climbed
    exact ⟨ladder_next part next, rfl⟩
  | preflight =>
    rw [show compactions _ = compactions seen by simp [sinceThen, Milestone.succeeded]]
    obtain ⟨part, length⟩ := climbed
    rw [length_eq_zero_iff.mp length.symm]
    exact ⟨⟨[.none], rfl⟩, rfl, rfl⟩
  | compacted preflight retention =>
    rw [show compactions _ = compactions seen ++ [retention] by simp [sinceThen, Milestone.succeeded]]
    refine ⟨climbed.1, ?_⟩
    cases preflight with
    | false => simpa using climbed.2
    | true =>
      obtain ⟨none, rfl⟩ := climbed.2
      simp [none]

/-! ### The steps of the engine on the ladder -/

/-- Where a place of the engine is on the ladder. -/
def EnginePc.rung : EnginePc → Rung
  | .compacting job | .summaryCalling job | .summarising job | .replacing job => .compacting job.preflight job.retention
  | .append _ (.overflow retention) => .compacting false retention
  | .manualReplacing _ => .manual
  | .announcing _ after => after.rung
  | .ended _ _ | .finished _ => .closed
  | .claiming | .settings | .collecting _ _ | .reading _ _ | .storing _ _ _ | .round _ _ | .cycle | .calling | .hydrating
  | .streaming _ | .retrying _ | .answering _ _ | .truncated _ _ _ | .background | .listening | .finalizing _
  | .draining _ _ | .append _ .cycle | .append _ .answer | .append _ .replaced | .append _ (.closing _) => .free

/-- The step neither moves the run on the ladder nor counts, though it may end the run. -/
def EngineState.Stays (state next : EngineState D) : Prop :=
  next.locals.overflow = state.locals.overflow ∧ (next.pc.rung = state.pc.rung ∨ next.pc.rung = .closed)

section Steps

variable {prepared : PreparedRun} {state next : EngineState D}

/-- The step of the ladder from one state to another. -/
def EngineState.Climbs (state : EngineState D) (seen : Option Milestone) (next : EngineState D) : Prop :=
  Climb state.pc.rung state.locals.overflow.compactions seen next.pc.rung next.locals.overflow.compactions

theorem EngineState.Stays.climbs (stays : state.Stays next) : state.Climbs none next := by
  obtain ⟨count, same | closed⟩ := stays
  · unfold EngineState.Climbs
    rw [count, same]
    exact .rest _ _
  · unfold EngineState.Climbs
    rw [count, closed]
    exact .stop _ _

theorem milestone_await (before after : EnginePc) (event : Event) : before.milestone (.await event) after = none := by
  cases before <;> rfl

/-! #### Commands -/

theorem rung_modelCommand {refusal : String} {again broken : List MessageBatch → EnginePc} {rung : Rung}
    (waits : ∀ batches, (again batches).rung = rung) (leaves : ∀ batches, (broken batches).rung = rung)
    (pending : List MessageBatch) (accounted : List String) (command : RunCommand) :
    (onModelCommand refusal again broken pending accounted command).rung = rung ∨
      (onModelCommand refusal again broken pending accounted command).rung = .closed := by
  cases command with
  | insertMessages batch => exact .inl (waits _)
  | breakMessages batch => exact .inl (leaves _)
  | cancel => exact .inr rfl
  | toolResult result =>
    simp only [onModelCommand]
    split
    · exact .inl (waits _)
    · exact .inr rfl

theorem rung_listeningCommand (command : RunCommand) :
    (onListeningCommand command).rung = .free ∨ (onListeningCommand command).rung = .closed := by
  cases command with
  | cancel => exact .inr rfl
  | _ => exact .inl rfl

theorem stays_received {command : RunCommand} {pc : EnginePc} (stepped : state.received command pc = some next)
    (place : pc.rung = state.pc.rung ∨ pc.rung = .closed) : state.Stays next := by
  obtain ⟨frame, -, rfl⟩ := Option.map_eq_some_iff.mp stepped
  exact ⟨rfl, place⟩

theorem stays_disconnected (stepped : state.disconnected = some next) : state.Stays next := by
  simp only [EngineState.disconnected, Option.ite_none_right_eq_some] at stepped
  cases stepped.2
  exact ⟨rfl, .inr rfl⟩

theorem stays_cancelled (stepped : state.cancelled = some next) : state.Stays next := by
  simp only [EngineState.cancelled, Option.ite_none_right_eq_some] at stepped
  cases stepped.2
  exact ⟨rfl, .inr rfl⟩

/-! #### The model and the summaries -/

theorem climbs_answer {pending : List MessageBatch} {cycle : ModelCycleResult} {short : Bool}
    (free : state.pc.rung = .free) (automatic : prepared.action ≠ .compact) :
    state.Climbs (some .answered) (onAnswer prepared state pending cycle short) := by
  have place : ∀ locals, (afterAttempt prepared locals cycle pending).rung = .free := by
    intro locals
    unfold afterAttempt
    rw [if_neg automatic]
    split <;> rfl
  unfold EngineState.Climbs
  rw [free, onAnswer, if_neg fun compact => automatic compact.1, place]
  exact .answered _

theorem rung_finalFailure (automatic : prepared.action ≠ .compact) (locals : EngineLocals) (pending : List MessageBatch)
    (failure : ModelCycleFailure) :
    (onFinalFailure prepared locals pending failure).rung = .free ∨
      (onFinalFailure prepared locals pending failure).rung = .closed := by
  have none : summaryFallback prepared locals pending = none := by
    unfold summaryFallback
    split
    · rw [if_neg automatic]
    · rfl
  unfold onFinalFailure
  rw [none]
  simp only [Option.getD_none]
  split
  · exact .inr rfl
  · split
    · exact .inr rfl
    · exact .inl rfl
  all_goals exact .inr rfl

theorem climbs_failure {pending : List MessageBatch} {failure : ModelCycleFailure} {overLimit : Bool}
    (free : state.pc.rung = .free) (automatic : prepared.action ≠ .compact) :
    state.Climbs (if overLimit then some .refused else none) (onFailure prepared state pending failure overLimit) := by
  -- whatever does not compact keeps the count
  have other : ∀ {next : EngineState D}, next.locals.overflow = state.locals.overflow →
      next.pc.rung = .free ∨ next.pc.rung = .closed → state.Climbs (if overLimit then some .refused else none) next := by
    intro next count place
    cases overLimit with
    | false => exact EngineState.Stays.climbs ⟨count, by rwa [free]⟩
    | true =>
      unfold EngineState.Climbs
      rw [free, count]
      exact .refused _ place
  unfold onFailure
  by_cases cancelled : state.frame.port.cancelled
  · rw [if_pos cancelled]
    refine other ?_ (.inr ?_)
    · rfl
    · rfl
  · rw [if_neg cancelled]
    cases found : overflowRetention prepared state.locals overLimit with
    | some retention =>
      simp only [overflowRetention, Option.ite_none_right_eq_some] at found
      obtain ⟨⟨rfl, -⟩, next⟩ := found
      unfold EngineState.Climbs
      rw [free]
      exact .climbs next
    | none =>
      by_cases again : shouldRetry failure state.locals.retries
      · rw [if_pos again]
        exact other rfl (.inl rfl)
      · rw [if_neg again]
        exact other rfl (rung_finalFailure automatic _ _ _)

theorem climbs_receiving {event : EngineEvent} (automatic : prepared.action ≠ .compact)
    (stepped : state.stepReceiving prepared state.pc event = some next) :
    state.Climbs (state.pc.milestone event next.pc) next := by
  cases here : state.pc with
  | streaming pending =>
    rw [here] at stepped
    have free : state.pc.rung = .free := here ▸ rfl
    cases event with
    | await event =>
      rw [milestone_await]
      cases event with
      | receive command =>
        refine (stays_received stepped ?_).climbs
        rw [free, onStreamingCommand]
        apply rung_modelCommand
        · exact fun _ => rfl
        · exact fun _ => rfl
      | disconnected => exact (stays_disconnected stepped).climbs
      | _ => cases stepped
    | answered cycle short =>
      cases stepped
      exact climbs_answer free automatic
    | refused failure overLimit =>
      cases stepped
      exact climbs_failure free automatic
    | _ => cases stepped
  | retrying pending =>
    rw [here] at stepped
    have free : state.pc.rung = .free := here ▸ rfl
    cases event with
    | await event =>
      rw [milestone_await]
      cases event with
      | receive command =>
        refine (stays_received stepped ?_).climbs
        rw [free, onRetryCommand]
        apply rung_modelCommand
        · exact fun _ => rfl
        · exact fun _ => rfl
      | disconnected => exact (stays_disconnected stepped).climbs
      | cancelled => exact (stays_cancelled stepped).climbs
      | elapsed =>
        cases stepped
        exact EngineState.Stays.climbs ⟨rfl, .inl free.symm⟩
      | _ => cases stepped
    | _ => cases stepped
  | summarising job =>
    rw [here] at stepped
    have place : state.pc.rung = .compacting job.preflight job.retention := here ▸ rfl
    cases event with
    | await event =>
      rw [milestone_await]
      cases event with
      | receive command =>
        refine (stays_received stepped ?_).climbs
        rw [place, onSummaryCommand]
        apply rung_modelCommand
        · exact fun _ => rfl
        · exact fun _ => rfl
      | disconnected => exact (stays_disconnected stepped).climbs
      | _ => cases stepped
    | summarised again =>
      cases stepped
      refine EngineState.Stays.climbs ⟨rfl, .inl ?_⟩
      rw [place]
      show (if _ then EnginePc.summaryCalling job else .replacing job).rung = _
      split <;> rfl
    | _ => cases stepped
  | listening =>
    rw [here] at stepped
    have free : state.pc.rung = .free := here ▸ rfl
    cases event with
    | await event =>
      rw [milestone_await]
      cases event with
      | receive command =>
        refine (stays_received stepped ?_).climbs
        rw [free]
        exact rung_listeningCommand command
      | disconnected => exact (stays_disconnected stepped).climbs
      | cancelled => exact (stays_cancelled stepped).climbs
      | elapsed =>
        cases stepped
        exact EngineState.Stays.climbs ⟨rfl, .inl free.symm⟩
      | clientClosed =>
        cases stepped
        exact EngineState.Stays.climbs ⟨rfl, .inr rfl⟩
      | _ => cases stepped
    | _ => cases stepped
  | _ =>
    rw [here] at stepped
    cases stepped

/-! #### Waiting for the store -/

theorem stays_appended {pc : AppendPc} {after : AfterAppend} {inserted : Bool} (here : state.pc = .append pc after)
    (frame : Frame D) : state.Stays (onAppended { state with frame } after inserted) := by
  unfold EngineState.Stays
  rw [here]
  cases after with
  | cycle => exact ⟨rfl, .inl rfl⟩
  | answer =>
    refine ⟨rfl, .inl ?_⟩
    show (if inserted then EnginePc.cycle else .background).rung = _
    split <;> rfl
  | overflow retention => exact ⟨rfl, .inl rfl⟩
  | replaced => exact ⟨rfl, .inl rfl⟩
  | closing closing =>
    cases closing with
    | finalTurn => exact ⟨rfl, .inl rfl⟩
    | compaction => exact ⟨rfl, .inr rfl⟩

theorem stays_inside {nowMs : Int} {event : Event} (stepped : state.stepInside prepared nowMs state.pc event = some next) :
    state.Stays next := by
  cases here : state.pc with
  | round round pc =>
    rw [here] at stepped
    obtain ⟨⟨frame, progress⟩, -, rfl⟩ := Option.map_eq_some_iff.mp stepped
    have free : state.pc.rung = .free := here ▸ rfl
    cases progress with
    | onward pc => exact ⟨rfl, .inl free.symm⟩
    | returned => exact ⟨rfl, .inl free.symm⟩
    | stopped outcome => exact ⟨rfl, .inr rfl⟩
  | append pc after =>
    rw [here] at stepped
    obtain ⟨⟨frame, progress⟩, -, rfl⟩ := Option.map_eq_some_iff.mp stepped
    cases progress with
    | onward pc =>
      refine ⟨rfl, .inl ?_⟩
      rw [here]
      cases after <;> rfl
    | returned inserted => exact stays_appended here frame
    | stopped outcome => exact ⟨rfl, .inr rfl⟩
  | draining closing accepted =>
    rw [here] at stepped
    obtain ⟨⟨frame, progress⟩, -, rfl⟩ := Option.map_eq_some_iff.mp stepped
    have free : state.pc.rung = .free := here ▸ rfl
    cases progress with
    | onward accepted => exact ⟨rfl, .inl free.symm⟩
    | returned batches =>
      cases batches with
      | nil => exact ⟨rfl, .inr rfl⟩
      | cons first batches => exact ⟨rfl, .inl free.symm⟩
    | stopped outcome => exact ⟨rfl, .inr rfl⟩
  | announcing what after =>
    rw [here] at stepped
    obtain ⟨⟨frame, progress⟩, -, rfl⟩ := Option.map_eq_some_iff.mp stepped
    have place : state.pc.rung = after.rung := here ▸ rfl
    cases progress with
    | onward pc => exact pc.elim
    | returned => exact ⟨rfl, .inl place.symm⟩
    | stopped outcome => exact ⟨rfl, .inr rfl⟩
  | truncated message failure pending =>
    rw [here] at stepped
    cases message with
    | none =>
      obtain ⟨⟨frame, progress⟩, -, rfl⟩ := Option.map_eq_some_iff.mp stepped
      cases progress with
      | onward pc => exact pc.elim
      | returned => exact ⟨rfl, .inr rfl⟩
      | stopped outcome => exact ⟨rfl, .inr rfl⟩
    | some message => cases stepped
  | _ =>
    rw [here] at stepped
    cases stepped

theorem climbs_startCycle {overBudget : Bool} (here : state.pc = .cycle)
    (stepped : startCycle prepared state overBudget = some next) :
    state.Climbs (state.pc.milestone .overBudget next.pc) next ∧ (overBudget = false → state.Stays next) := by
  have free : state.pc.rung = .free := here ▸ rfl
  have seen : ∀ pc, state.pc.milestone .overBudget pc = match pc with
      | .announcing .usageSnapshot (.compacting _) => some .preflight
      | _ => none := fun pc => by rw [here]; rfl
  rw [seen]
  unfold startCycle at stepped
  split at stepped
  · cases stepped
    have stays : state.Stays (state.goto (.stop .cancelled)) := ⟨rfl, .inr rfl⟩
    exact ⟨stays.climbs, fun _ => stays⟩
  · split at stepped
    · cases stepped
      rename_i error _
      have stays : state.Stays (state.goto (.fail error)) := ⟨rfl, .inr rfl⟩
      exact ⟨stays.climbs, fun _ => stays⟩
    · split at stepped
      · cases stepped
        have stays : state.Stays (state.goto .calling) := ⟨rfl, .inl free.symm⟩
        exact ⟨stays.climbs, fun _ => stays⟩
      · split at stepped
        · rename_i asked fresh
          cases stepped
          have count : state.locals.overflow.compactions = 0 := by
            simpa [OverflowEpisode.alreadyCompacted] using fresh.2
          refine ⟨?_, fun none => absurd none (by simpa using asked)⟩
          unfold EngineState.Climbs
          rw [free, count]
          exact count ▸ .preflight
        · cases stepped

theorem climbs_replaceAutomatically {job : CompactionJob} (here : state.pc = .replacing job) (estimates : Estimates)
    (text : String) (refusal : Option String) :
    state.Climbs (state.pc.milestone (.summary estimates text refusal)
        (replaceAutomatically prepared state job estimates text refusal).pc)
      (replaceAutomatically prepared state job estimates text refusal) := by
  have place : state.pc.rung = .compacting job.preflight job.retention := here ▸ rfl
  rw [here]
  unfold replaceAutomatically
  simp only
  split
  · exact EngineState.Stays.climbs ⟨rfl, .inr rfl⟩
  · unfold EngineState.Climbs
    rw [place]
    have step := Climb.compacted job.preflight job.retention state.locals.overflow.compactions
    cases preflight : job.preflight with
    | false =>
      rw [preflight] at step
      exact step
    | true =>
      rw [preflight] at step
      exact step

theorem stays_appendAnswer {message : CanonicalMessage} {after : EnginePc} (place : after.rung = state.pc.rung) :
    state.Stays (state.appendAnswer prepared message after) := by
  unfold EngineState.appendAnswer
  split
  · exact ⟨rfl, .inl place⟩
  · exact ⟨rfl, .inr rfl⟩

theorem rung_afterInitialMessages : (afterInitialMessages prepared).rung = .free := by
  unfold afterInitialMessages
  split <;> rfl

theorem rung_collect (store : Store D) (pending todo : List CanonicalMessage) :
    (collect prepared store pending todo).rung = .free ∨ (collect prepared store pending todo).rung = .closed := by
  cases todo with
  | nil =>
    simp only [collect]
    split
    · exact .inl rung_afterInitialMessages
    · exact .inl rfl
  | cons message todo =>
    simp only [collect]
    split
    · split
      · exact .inr rfl
      · exact .inl rfl
    · exact .inl rfl

theorem rung_afterStoring (delivered inserted : Bool) :
    (afterStoring prepared delivered inserted).rung = .free ∨ (afterStoring prepared delivered inserted).rung = .closed := by
  unfold afterStoring
  split
  · exact .inr rfl
  · split
    · exact .inl rung_afterInitialMessages
    · exact .inl rung_afterInitialMessages

theorem rung_startCompaction (frame : Frame D) (job : CompactionJob) (refusal : Option String) :
    (startCompaction prepared frame job refusal).rung = .compacting job.preflight job.retention ∨
      (startCompaction prepared frame job refusal).rung = .closed := by
  unfold startCompaction
  split
  · exact .inr rfl
  · split
    · exact .inr rfl
    · split
      · exact .inl rfl
      · exact .inl rfl

theorem stays_finishFailed {outcome : RunOutcome} {tries : Nat} : state.Stays (onFinishFailed state outcome tries) := by
  unfold onFinishFailed
  split
  · exact ⟨rfl, .inr rfl⟩
  · exact ⟨rfl, .inr rfl⟩

theorem overflow_beginProviderCall {locals : EngineLocals} (begun : beginProviderCall prepared state = .ok locals) :
    locals.overflow = state.locals.overflow := by
  unfold beginProviderCall at begun
  split at begun
  · split at begun
    · cases begun
      rfl
    · cases begun
  · cases begun

theorem stays_storeFailed {nowMs : Int} {error : Error}
    (stepped : state.stepAlone prepared nowMs state.pc (.await (.storeFailed error)) = some next) : state.Stays next := by
  cases here : state.pc with
  | ended outcome tries =>
    rw [here] at stepped
    cases stepped
    exact stays_finishFailed
  | collecting todo pending =>
    rw [here] at stepped
    cases todo with
    | nil => cases stepped
    | cons message todo =>
      simp only [EngineState.stepAlone, Option.ite_none_right_eq_some] at stepped
      cases stepped.2
      exact ⟨rfl, .inr rfl⟩
  | truncated message failure pending =>
    rw [here] at stepped
    cases message <;> cases stepped
    exact ⟨rfl, .inr rfl⟩
  | _ =>
    rw [here] at stepped
    first
      | cases stepped; done
      | cases stepped
        exact ⟨rfl, .inr rfl⟩

theorem stays_proceed {nowMs : Int} (stepped : state.stepAlone prepared nowMs state.pc (.await .proceed) = some next) :
    state.Stays next := by
  cases here : state.pc with
  | claiming =>
    rw [here] at stepped
    have free : state.pc.rung = .free := here ▸ rfl
    simp only [EngineState.stepAlone] at stepped
    split at stepped <;> cases stepped
    · exact ⟨rfl, .inl free.symm⟩
    · exact ⟨rfl, .inr rfl⟩
  | settings =>
    rw [here] at stepped
    cases stepped
    exact ⟨rfl, .inl (here ▸ rfl)⟩
  | collecting todo pending =>
    rw [here] at stepped
    cases stepped
    have free : state.pc.rung = .free := here ▸ rfl
    refine ⟨rfl, ?_⟩
    rw [free]
    exact rung_collect _ _ _
  | reading pending delivered =>
    rw [here] at stepped
    cases stepped
    exact ⟨rfl, .inl (here ▸ rfl)⟩
  | storing pending known delivered =>
    rw [here] at stepped
    have free : state.pc.rung = .free := here ▸ rfl
    simp only [EngineState.stepAlone] at stepped
    split at stepped <;> cases stepped
    · refine ⟨rfl, ?_⟩
      rw [free]
      exact rung_afterStoring _ _
    · exact ⟨rfl, .inr rfl⟩
  | cycle =>
    rw [here] at stepped
    exact (climbs_startCycle here stepped).2 rfl
  | calling =>
    rw [here] at stepped
    have free : state.pc.rung = .free := here ▸ rfl
    simp only [EngineState.stepAlone] at stepped
    split at stepped <;> cases stepped
    · rename_i begun
      have same := overflow_beginProviderCall begun
      exact ⟨same, .inl free.symm⟩
    · exact ⟨rfl, .inr rfl⟩
  | summaryCalling job =>
    rw [here] at stepped
    have place : state.pc.rung = .compacting job.preflight job.retention := here ▸ rfl
    simp only [EngineState.stepAlone] at stepped
    split at stepped <;> cases stepped
    · exact ⟨rfl, .inr rfl⟩
    · rename_i begun _
      exact ⟨overflow_beginProviderCall begun, .inr rfl⟩
    · rename_i begun _
      exact ⟨overflow_beginProviderCall begun, .inl place.symm⟩
  | hydrating =>
    rw [here] at stepped
    cases stepped
    exact ⟨rfl, .inl (here ▸ rfl)⟩
  | answering message pending =>
    rw [here] at stepped
    cases stepped
    refine stays_appendAnswer ?_
    rw [here]
    split
    · rfl
    · rfl
  | truncated message failure pending =>
    rw [here] at stepped
    cases message <;> cases stepped
    refine stays_appendAnswer ?_
    rw [here]
    rfl
  | finalizing closing =>
    rw [here] at stepped
    cases stepped
    exact ⟨rfl, .inl (here ▸ rfl)⟩
  | ended outcome tries =>
    rw [here] at stepped
    simp only [EngineState.stepAlone] at stepped
    split at stepped <;> cases stepped
    · exact ⟨rfl, .inr rfl⟩
    · exact stays_finishFailed
  | _ =>
    rw [here] at stepped
    cases stepped

theorem climbs_alone {nowMs : Int} {event : EngineEvent} (automatic : state.pc.rung ≠ .manual)
    (stepped : state.stepAlone prepared nowMs state.pc event = some next) :
    state.Climbs (state.pc.milestone event next.pc) next := by
  cases EngineState.alone stepped with
  | proceed =>
    rw [milestone_await]
    exact (stays_proceed stepped).climbs
  | storeFailed error =>
    rw [milestone_await]
    exact (stays_storeFailed stepped).climbs
  | overBudget here cycled => exact (climbs_startCycle here cycled).1
  | @background running here is =>
    subst is
    rw [show state.pc.milestone (.background running) _ = none by rw [here]; rfl]
    refine EngineState.Stays.climbs ⟨rfl, .inl ?_⟩
    rw [here]
    cases running <;> rfl
  | @validated job refusal here is =>
    subst is
    have place : state.pc.rung = .compacting job.preflight job.retention := here ▸ rfl
    rw [show state.pc.milestone (.validated refusal) _ = none by rw [here]; rfl]
    refine EngineState.Stays.climbs ⟨rfl, ?_⟩
    rw [place]
    exact rung_startCompaction _ _ _
  | replaced here is =>
    subst is
    exact climbs_replaceAutomatically here _ _ _
  | replacedManually here is => exact absurd (here ▸ rfl) automatic

/-- **What a step does to the place of the run on the ladder.** -/
theorem climb_of_step {label : EngineLabel} (automatic : prepared.action ≠ .compact) (place : state.pc.rung ≠ .manual)
    (step : EngineStep prepared state label next) : state.Climbs (state.milestone label next) next := by
  cases step with
  | code stepped =>
    show state.Climbs (state.pc.milestone _ next.pc) next
    unfold EngineState.step at stepped
    split at stepped
    all_goals rename_i here
    all_goals first
      | rw [milestone_await]
        exact (stays_inside stepped).climbs
      | exact climbs_receiving automatic stepped
      | exact climbs_alone place stepped
  | submit => exact EngineState.Stays.climbs ⟨rfl, .inl rfl⟩
  | toolResult => exact EngineState.Stays.climbs ⟨rfl, .inl rfl⟩
  | cancel => exact EngineState.Stays.climbs ⟨rfl, .inl rfl⟩
  | store => exact EngineState.Stays.climbs ⟨rfl, .inl rfl⟩

end Steps

/-! ### Whole runs -/

section Runs

variable {prepared : PreparedRun}

/-- The part since the last success and the place of the run. -/
structure OnLadder (seen : List Milestone) (state : EngineState D) : Prop where
  climbed : Climbed (compactions seen) state.locals.overflow.compactions state.pc.rung
  preflight : ∀ front : List Milestone, front ++ [.preflight] <+: seen → compactions front = []

theorem onLadder_step (automatic : prepared.action ≠ .compact) (seen : List Milestone) (state : EngineState D)
    (label : EngineLabel) (after : EngineState D) (on : OnLadder seen state)
    (step : (engineSystem D prepared).step state label after) :
    OnLadder (sinceThen Milestone.succeeded seen (state.milestone label after)) after := by
  have place : state.pc.rung ≠ .manual := fun manual => by
    have climbed := on.climbed
    rw [manual] at climbed
    exact climbed
  have climb := climb_of_step automatic place step
  refine ⟨on.climbed.step climb, ?_⟩
  intro front first
  cases shown : state.milestone label after with
  | none =>
    rw [shown] at first
    exact on.preflight front first
  | some milestone =>
    rw [shown] at first
    by_cases succeeded : milestone.succeeded = true
    · simp [sinceThen, succeeded] at first
    · rw [sinceThen, if_neg succeeded] at first
      rcases prefix_concat_iff.mp first with same | earlier
      · obtain ⟨rfl, last⟩ := append_inj' same rfl
        cases last
        unfold EngineState.Climbs at climb
        rw [shown] at climb
        -- the preflight check starts a compaction at the count 0 alone
        have free := on.climbed
        generalize state.pc.rung = rung at climb free
        generalize state.locals.overflow.compactions = count at climb free
        generalize after.pc.rung = rung' at climb
        generalize after.locals.overflow.compactions = count' at climb
        cases climb
        exact length_eq_zero_iff.mp free.2.symm
      · exact on.preflight front earlier

theorem EngineStart.onLadder {start : EngineState D} (initial : EngineStart start) : OnLadder [] start := by
  constructor
  · rw [initial.pc, initial.locals]
    exact ⟨List.nil_prefix, rfl⟩
  · intro front first
    simp at first

theorem OnLadder.bounded {seen : List Milestone} {state : EngineState D} (on : OnLadder seen state) : Bounded seen where
  climbs := on.climbed.prefix
  refused := by
    rintro front rest rfl twice
    have most := on.climbed.prefix.length_le
    rw [← singleton_append, compactions_append, compactions_append, compactions_refused] at most
    simp only [ladder, length_append, length_cons, length_nil] at most
    exact length_eq_zero_iff.mp (by omega)
  preflight := on.preflight

/-- **Compactions do not loop.** In a run that was not asked to compact, the part between two model calls that succeed, or
before the first of them, is bounded. -/
theorem compaction_ladder {start last : EngineState D} {before segment rest : List Milestone} (initial : EngineStart start)
    (automatic : prepared.action ≠ .compact)
    (run : (engineSystem D prepared).Watched EngineState.milestone start (before ++ segment ++ rest) last)
    (begins : before = [] ∨ before.getLast? = some .answered) (between : .answered ∉ segment) : Bounded segment := by
  have always : ∀ {seen : List Milestone} {state : EngineState D},
      (engineSystem D prepared).Watched EngineState.milestone start seen state →
        Bounded (since Milestone.succeeded seen) :=
    fun run => (System.watched_since (onLadder_step automatic) initial.onLadder run).bounded
  refine run.between always ?_ ?_
  · rcases begins with none | last
    · exact .inl none
    · exact .inr ⟨.answered, last, rfl⟩
  · intro milestone listed
    cases milestone with
    | answered => exact absurd listed between
    | _ => rfl

/-- The steps of the sample with what is seen of them. -/
def sampleWatch (watched : List Milestone × EngineState HistoryDigest) (label : EngineLabel) :
    Option (List Milestone × EngineState HistoryDigest) :=
  (sampleStep watched.2 label).map fun next => (watched.1 ++ (watched.2.milestone label next).toList, next)

theorem sampleWatch_watched {start : EngineState HistoryDigest} {labels : List EngineLabel}
    {watched last : List Milestone × EngineState HistoryDigest} (ran : labels.foldlM sampleWatch watched = some last)
    (run : (engineSystem HistoryDigest (samplePrepared "first")).Watched EngineState.milestone start watched.1 watched.2) :
    (engineSystem HistoryDigest (samplePrepared "first")).Watched EngineState.milestone start last.1 last.2 := by
  induction labels generalizing watched with
  | nil =>
    cases ran
    exact run
  | cons label labels ih =>
    obtain ⟨middle, stepped, ran⟩ := Option.bind_eq_some_iff.mp ran
    obtain ⟨next, taken, rfl⟩ := Option.map_eq_some_iff.mp stepped
    exact ih ran (run.snoc (sampleStep_step taken))

/-- A model whose window is not known. -/
def sampleEstimates : Estimates :=
  { tokens := fun _ => 0
    promptTokens := 0
    contextWindowTokens := none
    inputBudget := none
    calibrateBudget := id
    retentionPercent := 0
    maxRetainedTokens := none }

/-- A refusal over the limit, and the way to the compaction. -/
def sampleRefusal : List EngineLabel :=
  [.code 0 (.refused ⟨.provider "too long", "", "", none, true⟩ true)] ++ sampleProceeds 1 ++
    [.code 0 (.validated none)] ++ sampleProceeds 1

/-- The summary, its commit, and the way to the next model call. -/
def sampleSummary : List EngineLabel :=
  [.code 0 (.summary sampleEstimates "A task is done." none)] ++ sampleProceeds 7

/-- A round, then two refusals over the limit with the compactions that answer them. The first asks for
a summary, the second uses it again. -/
def sampleLadder : List EngineLabel :=
  sampleProceeds 6 ++ [.code 0 (sampleAnswer "c1")] ++ sampleProceeds 2 ++ [.code 0 (.await .elapsed)] ++
    sampleProceeds 7 ++ sampleRefusal ++ sampleProceeds 1 ++ [.code 0 (.summarised false)] ++ sampleSummary ++
    sampleRefusal ++ sampleSummary

/-- The part behind the round: the compactions are the two steps of the ladder. -/
theorem compaction_ladder_sample :
    compactions [.refused, .compacted .window, .refused, .compacted .none] = [.window, .none] ∧
    Bounded [.refused, .compacted .window, .refused, .compacted .none] := by
  refine ⟨by decide, ?_⟩
  have runs : (sampleLadder.foldlM sampleWatch ([], sampleStart)).map Prod.fst =
      some [.answered, .refused, .compacted .window, .refused, .compacted .none] := by
    decide +kernel
  obtain ⟨⟨seen, last⟩, ran, shown⟩ := Option.map_eq_some_iff.mp runs
  have watched := sampleWatch_watched ran .nil
  rw [show seen = [.answered] ++ [.refused, .compacted .window, .refused, .compacted .none] ++ []
    from shown] at watched
  exact compaction_ladder sampleStart_start (by decide) watched (.inr rfl) (by decide)

end Runs

end Byok
