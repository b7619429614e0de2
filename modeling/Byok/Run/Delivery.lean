/-
**What the handle of a run promises.** `RunHandle::submit_messages`, `server/src/run/handle.rs`.

* An applied or a duplicate batch was on the chain of the run (`run_delivered`).
* A run that is closing, or closed, takes no more batches (`submitMessages_closed`).
* When a run announces its last commit, each batch that it ever took is on its chain, and it never
  takes another (`final_committed`, `final_enqueued`).

`run_delivery` puts them together for all runs, however the handles, the store and the run take turns.
-/

import Byok.Model.ProjectionLaws
import Byok.Run.EngineRuns

set_option linter.unusedSectionVars false

namespace Byok

open Library Transaction Store

variable {D : Type} [DecidableEq D] [ChainHash D]

/-- Somewhere on its way from `start` to `state` the run had all messages of the batch on the chain of
its head, and the checkpoint of that head still has them. -/
def Committed (prepared : PreparedRun) (start state : EngineState D) (batch : MessageBatch) : Prop :=
  ∃ first middle rest, (engineSystem D prepared).Run start first middle ∧
    (engineSystem D prepared).Run middle rest state ∧ middle.frame.Claimed prepared ∧
    Carries middle.frame.chain batch ∧
    state.frame.store.loadCheckpointMessages middle.frame.checkpoint = middle.frame.chain

/-- The run announces its last commit. -/
def EnginePc.Final (pc : EnginePc) : Prop :=
  ∃ closing : Closing, pc = .announcing (.messagesCommitted closing.cause) (.stop .completed)

/-- The promises of a handle, when its run has come from `start` to `state`. -/
structure Delivers (prepared : PreparedRun) (start state : EngineState D) : Prop where
  committed : ∀ batch result, state.frame.port.awaited state.pc.held batch = some result →
    result = .applied ∨ result = .duplicate → Committed prepared start state batch
  closed : ∀ eventId messages shouldBreak, state.frame.port.phase ≠ .running →
    ∃ result, (result = .runClosing ∨ result = .runEnded) ∧
      state.frame.port.submitMessages eventId messages shouldBreak = (result, state.frame.port)
  final : state.pc.Final → state.frame.port.queued = [] ∧ state.pc.held = [] ∧
    ∀ batch ∈ state.frame.port.enqueued, Committed prepared start state batch
  sealed : state.pc.Final → ∀ rest later, (engineSystem D prepared).Run state rest later →
    later.frame.port.enqueued = state.frame.port.enqueued

section Delivery

variable {prepared : PreparedRun} {start state next : EngineState D}

/-! ### Answers -/

theorem EngineStep.delivered {label : EngineLabel} (sound : state.Sound prepared)
    (step : EngineStep prepared state label next) :
    next.frame.port.delivered = state.frame.port.delivered ∨
    ∃ batch result, (result = .applied ∨ result = .duplicate) ∧ state.frame.Claimed prepared ∧
      Carries state.frame.chain batch ∧
      next.frame.port.delivered =
        state.frame.port.delivered ++ [⟨batch, result, state.frame.checkpoint⟩] := by
  cases step with
  | code stepped =>
    cases sound.effect stepped with
    | claim here ran => exact .inl rfl
    | advance moves port stage known delivering => exact .inl port.phase.2.2.1
    | replace claimed grown port keeps => exact .inl (port ▸ rfl)
    | deliver here answer frame stage held known delivering =>
      refine .inr ⟨_, _, answer, sound.claimed (EnginePc.claimed_of_delivering here),
        sound.delivering _ here, ?_⟩
      rw [frame]
      rfl
    | finalize here =>
      refine .inl ?_
      show state.frame.port.beginFinalizing.delivered = _
      unfold RunPort.beginFinalizing
      split <;> rfl
    | drained here empty keeps => exact .inl rfl
    | resume stage held =>
      refine .inl ?_
      show state.frame.port.resumeRunning.delivered = _
      unfold RunPort.resumeRunning
      split <;> rfl
    | finish ended => exact .inl rfl
  | submit =>
    refine .inl ?_
    rcases RunPort.submitMessages_cases state.frame.port _ _ _ with
      ⟨result, -, refused⟩ | ⟨batch, command, -, -, -, sent⟩
    · rw [refused]
    · rw [sent]
  | @toolResult result =>
    refine .inl ?_
    rcases state.frame.port.toolResult_cases result with same | sent
    · rw [same]
    · rw [sent]
  | cancel =>
    refine .inl ?_
    rw [RunPort.cancel_eq]
  | store foreign => exact .inl rfl

theorem EngineStep.extends' {label : EngineLabel} (sound : state.Sound prepared)
    (step : EngineStep prepared state label next) : Extends state.frame.store next.frame.store := by
  cases step with
  | code stepped =>
    cases sound.effect stepped with
    | claim here ran => exact writesMany_extends (claimRun_writes ran)
    | advance moves port stage known delivering => exact moves.extends'
    | replace claimed grown port keeps => exact grown
    | deliver here answer frame stage held known delivering =>
      rw [frame]
      exact .refl _
    | finalize here => exact .refl _
    | drained here empty keeps => exact .refl _
    | resume stage held => exact .refl _
    | finish ended =>
      rcases ended with same | ⟨status, failure, finished⟩
      · rw [EngineState.finish, same]
        exact .refl _
      · rw [EngineState.finish, finished]
        exact writesMany_extends (Operation.apply_writes sound.wellFormed _)
  | store foreign => exact writesMany_extends (Operation.apply_writes sound.wellFormed _)
  | _ => exact .refl _

theorem sound_run {labels : List EngineLabel} (sound : state.Sound prepared)
    (run : (engineSystem D prepared).Run state labels next) :
    next.Sound prepared ∧ Extends state.frame.store next.frame.store := by
  refine @System.run_relates _ _ _ (fun state => state.Sound prepared)
    (fun before after => Extends before.frame.store after.frame.store)
    (fun _ => Extends.refl _) (fun _ _ _ => Extends.trans) ?_ _ _ _ sound run
  intro state label after sound step
  exact ⟨sound_step sound step, EngineStep.extends' sound step⟩

theorem Committed.of_run {first rest : List EngineLabel} {middle : EngineState D}
    {batch : MessageBatch} (sound : middle.Sound prepared)
    (before : (engineSystem D prepared).Run start first middle)
    (after : (engineSystem D prepared).Run middle rest state)
    (claimed : middle.frame.Claimed prepared) (carries : Carries middle.frame.chain batch) :
    Committed prepared start state batch := by
  obtain ⟨later, grown⟩ := sound_run sound after
  obtain ⟨row, member, named, -⟩ := claimed.top
  refine ⟨first, middle, rest, before, after, claimed, carries, ?_⟩
  rw [← named, load_extends claimed.wellFormed later.wellFormed grown member, named]
  rfl

theorem Committed.step {batch : MessageBatch} {label : EngineLabel}
    (committed : Committed prepared start state batch) (sound : start.Sound prepared)
    (step : EngineStep prepared state label next) : Committed prepared start next batch := by
  obtain ⟨first, middle, rest, before, after, claimed, carries, -⟩ := committed
  exact .of_run (sound_run sound before).1 before (.snoc after step) claimed carries

/-- **An answered batch was on the chain of the run.** -/
theorem run_delivered {labels : List EngineLabel} (sound : start.Sound prepared)
    (fresh : start.frame.port.delivered = [])
    (run : (engineSystem D prepared).Run start labels state) :
    ∀ delivery ∈ state.frame.port.delivered, Committed prepared start state delivery.batch := by
  induction run with
  | nil =>
    rw [fresh]
    exact fun delivery member => nomatch member
  | @snoc labels before after label run step ih =>
    have here := (sound_run sound run).1
    intro delivery member
    rcases EngineStep.delivered here step with same | ⟨batch, result, -, claimed, carries, more⟩
    · exact (ih delivery (same ▸ member)).step sound step
    · rcases List.mem_append.mp (more ▸ member) with old | new
      · exact (ih delivery old).step sound step
      · obtain rfl := List.mem_singleton.mp new
        exact .of_run here run (.single step) claimed carries

/-! ### The end -/

/-- The places of a run that has announced its last commit. -/
@[simp]
def EnginePc.sealed : EnginePc → Bool
  | announcing (.messagesCommitted _) (ended _ _) | ended _ _ | finished _ => true
  | announcing _ _ | claiming | settings | collecting _ _ | reading _ _ | storing _ _ _ => false
  | round _ _ | cycle | calling | hydrating | streaming _ | retrying _ | answering _ _ => false
  | truncated _ _ _ | background | listening | compacting _ | summaryCalling _ => false
  | summarising _ | replacing _ | manualReplacing _ | append _ _ | finalizing _ | draining _ _ => false

/-- A run that takes no batch any more. -/
structure Sealed (enqueued : List MessageBatch) (state : EngineState D) : Prop where
  pc : state.pc.sealed = true
  phase : state.frame.port.phase ≠ .running
  enqueued : state.frame.port.enqueued = enqueued

theorem Sealed.finish {enqueued : List MessageBatch} (sealed : Sealed enqueued state)
    (store : Store D) (outcome : RunOutcome) : Sealed enqueued (state.finish store outcome) :=
  ⟨rfl, by simp [EngineState.finish, RunPort.finish], sealed.enqueued⟩

theorem Sealed.code {enqueued : List MessageBatch} (sealed : Sealed enqueued state) {nowMs : Int}
    {event : EngineEvent} (stepped : state.step prepared nowMs event = some next) :
    Sealed enqueued next := by
  have failed : ∀ {outcome : RunOutcome} {tries : Nat},
      Sealed enqueued (onFinishFailed state outcome tries) := by
    intro outcome tries
    unfold onFinishFailed
    split
    · exact ⟨rfl, sealed.phase, sealed.enqueued⟩
    · exact sealed.finish _ _
  have place := sealed.pc
  cases here : state.pc with
  | announcing what after =>
    rw [here] at place
    cases what with
    | messagesCommitted cause =>
      cases after with
      | ended outcome tries =>
        unfold EngineState.step at stepped
        rw [here] at stepped
        cases event with
        | await event =>
          obtain ⟨⟨frame, progress⟩, announced, rfl⟩ := Option.map_eq_some_iff.mp stepped
          obtain ⟨rfl, ⟨-, rfl⟩ | ⟨outcome, -, rfl⟩⟩ := Frame.announced_cases announced
          · exact ⟨rfl, sealed.phase, sealed.enqueued⟩
          · exact ⟨rfl, sealed.phase, sealed.enqueued⟩
        | _ => cases stepped
      | _ => cases place
    | _ => cases place
  | ended outcome tries =>
    unfold EngineState.step at stepped
    rw [here] at stepped
    cases event with
    | await event =>
      cases event with
      | proceed =>
        simp only [EngineState.stepAlone] at stepped
        split at stepped <;> cases stepped
        · exact sealed.finish _ _
        · exact failed
      | storeFailed error =>
        cases stepped
        exact failed
      | _ => cases stepped
    | _ => cases stepped
  | finished outcome =>
    unfold EngineState.step at stepped
    rw [here] at stepped
    cases stepped
  | _ =>
    rw [here] at place
    cases place

theorem Sealed.step {enqueued : List MessageBatch} (sealed : Sealed enqueued state)
    {label : EngineLabel} (step : EngineStep prepared state label next) : Sealed enqueued next := by
  cases step with
  | code stepped => exact sealed.code stepped
  | submit =>
    obtain ⟨result, -, refused⟩ := RunPort.submitMessages_closed sealed.phase _ _ _
    rw [refused]
    exact sealed
  | @toolResult result =>
    rcases state.frame.port.toolResult_cases result with same | sent
    · rw [same]
      exact sealed
    · rw [sent]
      exact ⟨sealed.pc, sealed.phase, sealed.enqueued⟩
  | cancel =>
    rw [RunPort.cancel_eq]
    exact ⟨sealed.pc, sealed.phase, sealed.enqueued⟩
  | store foreign => exact ⟨sealed.pc, sealed.phase, sealed.enqueued⟩

theorem final_enqueued (custody : state.Custody) (final : state.pc.Final)
    {rest : List EngineLabel} {later : EngineState D}
    (run : (engineSystem D prepared).Run state rest later) :
    later.frame.port.enqueued = state.frame.port.enqueued := by
  have sealed : Sealed state.frame.port.enqueued state := by
    obtain ⟨closing, here⟩ := final
    refine ⟨by rw [here]; rfl, ?_, rfl⟩
    rw [custody.closing (.inr (by rw [here]; cases closing <;> rfl))]
    simp
  refine (System.run_invariant (fun _ _ _ sealed step => ?_) sealed run).enqueued
  exact Sealed.step sealed step

theorem final_empty (custody : state.Custody) (final : state.pc.Final) :
    state.frame.port.queued = [] ∧ state.pc.held = [] ∧
      ∀ batch ∈ state.frame.port.enqueued, batch ∈ state.frame.port.delivered.map (·.batch) := by
  obtain ⟨closing, here⟩ := final
  have drained : state.pc.stage = .drained := by
    rw [here]
    cases closing <;> rfl
  have held : state.pc.held = [] := by
    rw [here]
    rfl
  have empty := custody.drained drained
  refine ⟨empty, held, fun batch member => ?_⟩
  rcases custody.kept (by simp [drained]) batch member with answered | waiting
  · exact answered
  · rw [empty, held] at waiting
    cases waiting

/-- **The handle of a run keeps its promises.** -/
theorem run_delivery {labels : List EngineLabel} (initial : EngineStart start)
    (run : (engineSystem D prepared).Run start labels state) : Delivers prepared start state := by
  have custody : state.Custody := custody_of_reachable ⟨start, labels, initial, run⟩
  have delivered := run_delivered initial.sound (by rw [initial.port]; rfl) run
  have answered : ∀ batch ∈ state.frame.port.delivered.map (·.batch),
      Committed prepared start state batch := by
    intro batch member
    obtain ⟨delivery, listed, rfl⟩ := List.mem_map.mp member
    exact delivered delivery listed
  constructor
  case committed =>
    intro batch result awaited applied
    unfold RunPort.awaited at awaited
    split at awaited
    · rename_i delivery found
      have same : delivery.batch = batch := by simpa using List.find?_some found
      exact same ▸ delivered delivery (List.mem_of_find?_eq_some found)
    · -- a dropped sender is never an answer
      split at awaited
      · cases awaited
      · split at awaited <;> cases awaited <;> rcases applied with applied | applied <;> cases applied
  case closed => exact fun _ _ _ closed => RunPort.submitMessages_closed closed _ _ _
  case final =>
    intro final
    obtain ⟨queued, held, all⟩ := final_empty custody final
    exact ⟨queued, held, fun batch member => answered batch (all batch member)⟩
  case sealed => exact fun final rest later run => final_enqueued custody final run

end Delivery

/-! ### A run that can be evaluated -/

/-- A run that is about to begin. -/
def sampleStart : EngineState HistoryDigest :=
  { frame := ⟨Store.empty, .new, ⟨0⟩, []⟩, locals := ⟨0, ⟨0⟩, 0, none⟩, pc := .claiming }

theorem sampleStart_start : EngineStart sampleStart :=
  ⟨.start rfl, rfl, rfl, rfl, rfl⟩

/-- The model asks for one call. -/
def sampleAnswer (callId : String) : EngineEvent :=
  .answered ⟨"model", "text", "", none, [⟨0, callId, "model", "Read", "{}", .null, none⟩]⟩ false

/-- The run does what it waits for, so many times. -/
def sampleProceeds (times : Nat) : List EngineLabel :=
  List.replicate times (.code 0 (.await .proceed))

/-- The steps of the sample, where the model has no known window. What the code projects is read off
the transducer, which can be evaluated. -/
def sampleStep (state : EngineState HistoryDigest) : EngineLabel → Option (EngineState HistoryDigest)
  | .code nowMs event =>
    match state.pc, event with
    | .cycle, .await .proceed =>
      match projector.transduce none state.frame.chain with
      | .ok _ => if state.frame.port.cancelled then none else some (state.goto .calling)
      | .error _ => none
    | .compacting job, .validated _ =>
      match projector.transduce none state.frame.chain with
      | .ok _ =>
        if state.frame.compactable (samplePrepared "first") = [] then none
        else some (state.goto (.announcing .autoCompactionStarted
          (if job.retention = .none ∧
              ((latestSummaryMessage state.frame.chain).bind summaryText).isSome then
            .replacing { job with reused := true }
          else .summaryCalling job)))
      | .error _ => none
    | .summaryCalling job, .await .proceed =>
      match beginProviderCall (samplePrepared "first") state,
          projector.transduce none (state.frame.compactable (samplePrepared "first")) with
      | .ok locals, .ok _ =>
        some { state with
          locals
          pc := .summarising { job with
            attempts := job.attempts + 1
            callIndex := some (job.callIndex.getD locals.providerCallIndex) } }
      | _, _ => none
    | .replacing job, .summary estimates text none =>
      let (_, retained) := partition state.frame.chain []
      let messages := retained.toList ++
        [summaryMessage (job.eventId ⟨"first"⟩ state.frame.checkpoint) text]
      match estimates.contextWindowTokens, projector.transduce none messages,
          Store.replaceCheckpoint ⟨"conversation"⟩ ⟨"first"⟩ state.frame.checkpoint messages
            state.frame.store with
      | none, .ok _, .ok (checkpoint, store) =>
        some { (state.committed store checkpoint (afterReplacement job)) with
          locals := { state.locals with
            overflow := if job.preflight then state.locals.overflow.preflightCompacted
              else state.locals.overflow } }
      | _, _, _ => none
    | _, _ => state.step (samplePrepared "first") nowMs event
  | .submit eventId messages shouldBreak => some { state with frame := { state.frame with
      port := (state.frame.port.submitMessages eventId messages shouldBreak).2 } }
  | .toolResult result => some { state with frame :=
      { state.frame with port := (state.frame.port.toolResult result).2 } }
  | .cancel | .store _ => none

theorem sampleStep_step {state next : EngineState HistoryDigest} {label : EngineLabel}
    (stepped : sampleStep state label = some next) :
    EngineStep (samplePrepared "first") state label next := by
  cases label with
  | code nowMs event =>
    refine .code ?_
    unfold sampleStep at stepped
    dsimp only at stepped
    split at stepped
    case h_1 here =>
      split at stepped
      · rename_i out projects
        split at stepped
        · cases stepped
        · rename_i alive
          unfold EngineState.step
          rw [here]
          simp only [EngineState.stepAlone, startCycle, alive, projectMessages_eq_transduce, projects]
          simpa using stepped
      · cases stepped
    case h_2 job refusal here =>
      split at stepped
      · rename_i out projects
        split at stepped
        · cases stepped
        · rename_i some_compactable
          unfold EngineState.step
          rw [here]
          simp only [EngineState.stepAlone, startCompaction, projectMessages_eq_transduce, projects,
            if_neg some_compactable]
          exact stepped
      · cases stepped
    case h_3 job here =>
      split at stepped
      · rename_i locals out begins projects
        unfold EngineState.step
        rw [here]
        simp only [EngineState.stepAlone, begins, projectMessages_eq_transduce, projects]
        exact stepped
      · cases stepped
    case h_4 job estimates text here =>
      split at stepped
      · rename_i out checkpoint store window projects replaced
        unfold EngineState.step
        rw [here]
        have initial : (samplePrepared "first").initialMessages = [] := rfl
        have run : (samplePrepared "first").runId = ⟨"first"⟩ := rfl
        have conversation : (samplePrepared "first").conversationId = ⟨"conversation"⟩ := rfl
        simp only [EngineState.stepAlone, replaceAutomatically,
          replacement_unbounded _ _ _ _ window, initial, run, conversation, List.map_nil,
          List.append_nil, except_ok_bind, projectMessages_eq_transduce, projects, replaced]
        exact stepped
      · cases stepped
    case h_5 => exact stepped
  | submit eventId messages shouldBreak =>
    cases stepped
    exact .submit
  | toolResult result =>
    cases stepped
    exact .toolResult
  | _ => cases stepped

theorem sampleStep_run {state last : EngineState HistoryDigest} {labels : List EngineLabel}
    (ran : labels.foldlM sampleStep state = some last) :
    (engineSystem HistoryDigest (samplePrepared "first")).Run state labels last := by
  induction labels generalizing state with
  | nil =>
    cases ran
    exact .nil
  | cons label labels ih =>
    obtain ⟨middle, stepped, ran⟩ := Option.bind_eq_some_iff.mp ran
    exact .cons (sampleStep_step stepped) (ih ran)

/-- What is inserted while the model streams. -/
def sampleInserted : CanonicalMessage :=
  { messageId := "runtime:event"
    role := .user
    origin := .runtime
    content := .parts [.text "A task is done."]
    runtimeEventId := some "event" }

/-- The model answers without calls. -/
def sampleFinalAnswer (text : String) : EngineEvent := .answered ⟨"model", text, "", none, []⟩ false

/-- A batch is taken while the model streams, it is appended behind the answer, and the model answers
again. -/
def sampleDelivery : List EngineLabel :=
  sampleProceeds 6 ++ [.submit "event" [sampleInserted] false,
    .code 0 (.await (.receive (.insertMessages ⟨"event", [sampleInserted], 0⟩))),
    .code 0 (sampleFinalAnswer "text")] ++
  sampleProceeds 8 ++ [.code 0 (sampleFinalAnswer "more")] ++ sampleProceeds 1 ++
    [.code 0 (.background false)] ++ sampleProceeds 2

/-- The run announces its last commit. -/
def sampleAnnouncing : EngineState HistoryDigest :=
  (sampleDelivery.foldlM sampleStep sampleStart).getD sampleStart

theorem sampleAnnouncing_run : (engineSystem HistoryDigest (samplePrepared "first")).Run sampleStart
    sampleDelivery sampleAnnouncing := by
  have runs : (sampleDelivery.foldlM sampleStep sampleStart).isSome = true := by decide +kernel
  obtain ⟨last, ran⟩ := Option.isSome_iff_exists.mp runs
  rw [sampleAnnouncing, ran]
  exact sampleStep_run ran

/-- A batch with a message, from its submission to the last commit of the run. -/
theorem run_delivery_sample :
    sampleAnnouncing.frame.port.enqueued = [⟨"event", [sampleInserted], 0⟩] ∧
    sampleAnnouncing.frame.port.awaited sampleAnnouncing.pc.held ⟨"event", [sampleInserted], 0⟩ =
      some .applied ∧
    sampleAnnouncing.pc = .announcing (.messagesCommitted .finalTurn) (.stop .completed) ∧
    Delivers (samplePrepared "first") sampleStart sampleAnnouncing := by
  refine ⟨?_, ?_, ?_, run_delivery sampleStart_start sampleAnnouncing_run⟩
  · decide +kernel
  · decide +kernel
  · decide +kernel

end Byok
