/-
**Tool results that arrive late.** `late_tool_result`, `server/src/run/engine.rs`; `execute`,
`tool_round.rs`.

A result whose call already has one is dropped by each loop that takes commands. The loop of `execute`
knows the results of its own round only, so a late result of an earlier round gets past it: either its
call is unknown and the run fails, or the round has a call of the same id, which is answered by it.

* `EngineState.Takes` — a step takes a result from the queue.
* `late_result_iff` — a late result does no harm unless a round takes it that has no result for it.
-/

import Byok.Run.Delivery

set_option linter.unusedSectionVars false

namespace Byok

open Library Transaction Store

variable {D : Type} [DecidableEq D] [ChainHash D]

/-- A step takes a result from the queue of the run. -/
def EngineState.Takes (state next : EngineState D) (result : ToolResult) : Prop :=
  state.frame.port.commands = .toolResult result :: next.frame.port.commands ∧
    next.frame.port.dropped = false

/-- A result that is late leaves the chain as it is and the run alive. -/
def Harmless (state next : EngineState D) : Prop :=
  ∀ result, state.Takes next result → result.callId ∈ state.frame.accounted →
    next.frame.chain = state.frame.chain ∧ ∀ failure, next.pc ≠ .stop (.failed failure)

/-- A round takes no result that is late for an earlier round. -/
def Timely (state next : EngineState D) : Prop :=
  ∀ result round locals, state.pc = .round round (.receive locals) → state.Takes next result →
    result.callId ∈ state.frame.accounted → result.callId ∈ locals.completed

section Late

variable {prepared : PreparedRun} {state next : EngineState D}

/-! ### Who takes commands -/

theorem RunPort.untaken {port : RunPort} {command : RunCommand} {more : List RunCommand} :
    port.commands ≠ command :: (port.commands ++ more) := by
  intro same
  have := congrArg List.length same
  simp at this
  omega

theorem EngineState.not_takes {result : ToolResult}
    (still : next.frame.port.dropped = true ∨
      ∃ more, next.frame.port.commands = state.frame.port.commands ++ more) :
    ¬ state.Takes next result := by
  rintro ⟨queue, alive⟩
  rcases still with dropped | ⟨more, same⟩
  · rw [dropped] at alive
    cases alive
  · rw [same] at queue
    exact RunPort.untaken queue

/-- The queue stays as it is, or is dropped. -/
def EngineState.Untouched (state next : EngineState D) : Prop :=
  next.frame.port.dropped = true ∨ next.frame.port.commands = state.frame.port.commands

theorem EngineState.Untouched.not_takes {result : ToolResult} (untouched : state.Untouched next) :
    ¬ state.Takes next result :=
  EngineState.not_takes (untouched.imp_right fun same => ⟨[], by rw [same, List.append_nil]⟩)

theorem EngineState.untouched_appendAnswer (message : CanonicalMessage) (after : EnginePc) :
    state.Untouched (state.appendAnswer prepared message after) := by
  unfold EngineState.appendAnswer
  split <;> exact .inr rfl

theorem EngineState.untouched_finishFailed (outcome : RunOutcome) (tries : Nat) :
    state.Untouched (onFinishFailed state outcome tries) := by
  unfold onFinishFailed
  split
  · exact .inr rfl
  · exact .inl rfl

theorem EngineState.untouched_startCycle {overBudget : Bool}
    (stepped : startCycle prepared state overBudget = some next) : state.Untouched next := by
  unfold startCycle at stepped
  split at stepped
  · cases stepped
    exact .inr rfl
  · split at stepped
    · cases stepped
      exact .inr rfl
    · split at stepped
      · cases stepped
        exact .inr rfl
      · split at stepped
        · cases stepped
          exact .inr rfl
        · cases stepped

theorem EngineState.untouched_replaceAutomatically (job : CompactionJob) (estimates : Estimates)
    (text : String) (refusal : Option String) :
    state.Untouched (replaceAutomatically prepared state job estimates text refusal) := by
  unfold replaceAutomatically
  simp only
  split <;> exact .inr rfl

theorem EngineState.untouched_replaceManually (pending : List MessageBatch) (estimates : Estimates)
    (text : String) : state.Untouched (replaceManually prepared state pending estimates text) := by
  unfold replaceManually
  simp only
  split <;> exact .inr rfl

theorem EngineState.untouched_finalizing {closing : Closing} :
    state.Untouched { state with
      frame := { state.frame with port := state.frame.port.beginFinalizing }
      pc := .draining closing [] } := by
  refine .inr ?_
  show state.frame.port.beginFinalizing.commands = _
  unfold RunPort.beginFinalizing
  split <;> rfl

theorem EngineState.untouched_alone {nowMs : Int} {pc : EnginePc} {event : EngineEvent}
    (stepped : state.stepAlone prepared nowMs pc event = some next) : state.Untouched next := by
  unfold EngineState.stepAlone at stepped
  split at stepped
  all_goals first
    | cases stepped; done
    | exact EngineState.untouched_startCycle stepped
    | -- the places that go on in one way
      cases stepped
      first
      | with_reducible exact EngineState.untouched_appendAnswer _ _
      | with_reducible exact EngineState.untouched_finishFailed _ _
      | with_reducible exact EngineState.untouched_replaceAutomatically _ _ _ _
      | with_reducible exact EngineState.untouched_replaceManually _ _ _
      | exact EngineState.untouched_finalizing
      | exact .inr rfl
      | exact .inl rfl
    | -- the places whose store may refuse
      split at stepped <;> cases stepped
      all_goals first
      | exact .inr rfl
      | exact .inl rfl
      | exact EngineState.untouched_finishFailed _ _

theorem AppendPc.Steps.commands {frame last : Frame D} {pc : AppendPc} {event : Event}
    {progress : Progress AppendPc Bool} (steps : pc.Steps prepared frame event last progress) :
    last.port.commands = frame.port.commands := by
  cases steps <;> rfl

theorem RoundPc.Steps.takes {round : ToolRound} {frame last : Frame D} {pc : RoundPc} {event : Event}
    {progress : Progress RoundPc Unit} (claimed : frame.Claimed prepared)
    (steps : RoundPc.Steps prepared round frame pc event last progress) {result : ToolResult}
    (queue : frame.port.commands = .toolResult result :: last.port.commands) :
    ∃ locals, pc = .receive locals ∧
      ((result.callId ∈ locals.completed ∧ progress = .onward (.receive locals) ∧
          last.chain = frame.chain) ∨
        (result.callId ∉ locals.completed ∧ (last.chain ≠ frame.chain ∨
          ∃ failure, progress = .stopped (.failed failure)))) := by
  have untaken : ∀ {command : RunCommand}, frame.port.commands ≠ command :: frame.port.commands := by
    simp
  cases steps with
  | ignore locals found known =>
    rw [found] at queue
    cases queue
    exact ⟨locals, rfl, .inl ⟨known, rfl, rfl⟩⟩
  | report locals found fresh ran =>
    rw [found] at queue
    cases queue
    refine ⟨locals, rfl, .inr ⟨fresh, .inl ?_⟩⟩
    obtain ⟨row, call, expected, committed⟩ := commitToolResult_ok claimed.wellFormed ran
    have chain := (commitToolResult_moves claimed committed).chain
    intro same
    have := congrArg List.length (chain.symm.trans same)
    simp at this
  | refuse locals found fresh cause =>
    rw [found] at queue
    cases queue
    exact ⟨locals, rfl, .inr ⟨fresh, .inr ⟨_, rfl⟩⟩⟩
  | broken locals found =>
    rw [found] at queue
    cases queue
  | insert locals found =>
    rw [found] at queue
    cases queue
  | cancel locals found =>
    rw [found] at queue
    cases queue
  | append inner =>
    rw [AppendPc.Steps.commands inner] at queue
    exact absurd queue untaken
  | _ => exact absurd queue untaken

/-! ### Late results -/

theorem Harmless.of_untaken (untaken : ∀ result, ¬ state.Takes next result) :
    Harmless state next ∧ Timely state next :=
  ⟨fun result takes => absurd takes (untaken result),
    fun result _ _ _ takes => absurd takes (untaken result)⟩

theorem Harmless.of_received {command : RunCommand} {pc : EnginePc}
    (received : state.received command pc = some next)
    (goesOn : ∀ result, command = .toolResult result → result.callId ∈ state.frame.accounted →
      ∀ failure, pc ≠ .stop (.failed failure)) : Harmless state next := by
  obtain ⟨frame, took, rfl⟩ := Option.map_eq_some_iff.mp received
  obtain ⟨rest, queue, rfl⟩ := Frame.receive_eq_some.mp took
  rintro result ⟨head, -⟩ late
  rw [queue] at head
  cases head
  exact ⟨rfl, goesOn result rfl late⟩

theorem onModelCommand_late {refusal : String} {again broken : List MessageBatch → EnginePc}
    {pending : List MessageBatch} {accounted : List String} {result : ToolResult}
    (late : result.callId ∈ accounted) :
    onModelCommand refusal again broken pending accounted (.toolResult result) = again pending := by
  simp [onModelCommand, lateToolResult, late]

theorem harmless_receiving {event : EngineEvent}
    (stepped : state.stepReceiving prepared state.pc event = some next) : Harmless state next := by
  have quiet : state.Untouched next → Harmless state next := fun untouched =>
    (Harmless.of_untaken fun _ => untouched.not_takes).1
  have hungUp : state.disconnected = some next → Harmless state next := by
    intro gone
    simp only [EngineState.disconnected, Option.ite_none_right_eq_some] at gone
    cases gone.2
    exact quiet (.inr rfl)
  have cancelled : state.cancelled = some next → Harmless state next := by
    intro gone
    simp only [EngineState.cancelled, Option.ite_none_right_eq_some] at gone
    cases gone.2
    exact quiet (.inr rfl)
  unfold EngineState.stepReceiving at stepped
  split at stepped
  case h_1 =>
    refine .of_received stepped ?_
    rintro result rfl late failure
    rw [onStreamingCommand, onModelCommand_late late]
    intro same
    cases same
  case h_5 =>
    refine .of_received stepped ?_
    rintro result rfl late failure
    rw [onRetryCommand, onModelCommand_late late]
    intro same
    cases same
  case h_9 =>
    refine .of_received stepped ?_
    rintro result rfl late failure
    rw [onSummaryCommand, onModelCommand_late late]
    intro same
    cases same
  case h_12 =>
    refine .of_received stepped ?_
    rintro result rfl late failure
    intro same
    cases same
  case h_3 =>
    cases stepped
    refine quiet (.inr ?_)
    simp only [onAnswer]
    split <;> rfl
  case h_4 =>
    cases stepped
    refine quiet (.inr ?_)
    unfold onFailure
    split
    · rfl
    · split
      · rfl
      · split <;> rfl
  all_goals first
    | cases stepped; done
    | exact hungUp stepped
    | exact cancelled stepped
    | cases stepped
      exact quiet (.inr rfl)

theorem commands_onAppended (state : EngineState D) (after : AfterAppend) (inserted : Bool) :
    (onAppended state after inserted).frame.port.commands = state.frame.port.commands := by
  cases after with
  | closing closing =>
    cases closing with
    | finalTurn =>
      show state.frame.port.resumeRunning.commands = _
      unfold RunPort.resumeRunning
      split <;> rfl
    | compaction => rfl
  | _ => rfl

theorem harmless_draining {nowMs : Int} {event : Event} {closing : Closing}
    {accepted : List MessageBatch}
    (stepped : state.stepInside prepared nowMs (.draining closing accepted) event = some next) :
    Harmless state next := by
  obtain ⟨⟨frame, progress⟩, ran, rfl⟩ := Option.map_eq_some_iff.mp stepped
  have quiet : frame = state.frame → Harmless state
      (state.within (.draining closing) (fun state batches => state.goto <|
        if batches = [] then .announcing (.messagesCommitted closing.cause) (.stop .completed)
        else .append (.next batches false) (.closing closing)) (frame, progress)) := by
    rintro rfl
    refine (Harmless.of_untaken fun result => EngineState.Untouched.not_takes (.inr ?_)).1
    cases progress <;> rfl
  cases event with
  | proceed =>
    simp only [drainAccepted, Option.ite_none_right_eq_some] at ran
    cases ran.2
    exact quiet rfl
  | disconnected =>
    simp only [drainAccepted, Option.ite_none_right_eq_some] at ran
    cases ran.2
    exact quiet rfl
  | receive command =>
    simp only [drainAccepted, Option.bind_eq_bind, Option.bind_eq_some_iff] at ran
    obtain ⟨popped, received, ran⟩ := ran
    obtain ⟨rest, queue, rfl⟩ := Frame.receive_eq_some.mp received
    rintro result ⟨head, -⟩ -
    rw [queue] at head
    cases command with
    | toolResult other =>
      cases ran
      refine ⟨rfl, fun failure same => ?_⟩
      cases same
    | _ => cases head
  | _ => cases ran

theorem harmless_inside {nowMs : Int} {event : Event} (sound : state.Sound prepared)
    (stepped : state.stepInside prepared nowMs state.pc event = some next) :
    Harmless state next ↔ Timely state next := by
  have quiet : (∀ result, ¬ state.Takes next result) → (Harmless state next ↔ Timely state next) :=
    fun untaken => ⟨fun _ => (Harmless.of_untaken untaken).2, fun _ => (Harmless.of_untaken untaken).1⟩
  cases here : state.pc with
  | round round pc =>
    rw [here] at stepped
    obtain ⟨⟨frame, progress⟩, ran, rfl⟩ := Option.map_eq_some_iff.mp stepped
    have steps := RoundPc.steps ran
    have claimed := sound.claimed (here ▸ rfl)
    constructor
    · -- a round that takes a late result it does not know is not as before
      intro harmless result round' locals place takes late
      have queue : state.frame.port.commands = .toolResult result :: frame.port.commands := by
        have queue := takes.1
        cases progress <;> exact queue
      obtain ⟨locals', rfl, ⟨known, -⟩ | ⟨-, changed⟩⟩ := steps.takes claimed queue
      · rw [here] at place
        cases place
        exact known
      · obtain ⟨same, alive⟩ := harmless result takes late
        rcases changed with moved | ⟨failure, rfl⟩
        · refine absurd ?_ moved
          cases progress <;> exact same
        · exact absurd rfl (alive failure)
    · intro timely result takes late
      have queue : state.frame.port.commands = .toolResult result :: frame.port.commands := by
        have queue := takes.1
        cases progress <;> exact queue
      obtain ⟨locals, rfl, ⟨known, rfl, same⟩ | ⟨fresh, -⟩⟩ := steps.takes claimed queue
      · refine ⟨same, fun failure stop => ?_⟩
        cases stop
      · exact absurd (timely result round locals here takes late) fresh
  | append pc after =>
    rw [here] at stepped
    obtain ⟨⟨frame, progress⟩, ran, rfl⟩ := Option.map_eq_some_iff.mp stepped
    have same := (AppendPc.steps ran).commands
    refine quiet fun result => EngineState.Untouched.not_takes (.inr ?_)
    cases progress with
    | returned inserted => exact (commands_onAppended _ _ _).trans same
    | _ => exact same
  | draining closing accepted =>
    rw [here] at stepped
    refine iff_of_true (harmless_draining stepped) ?_
    rintro result round locals place
    rw [here] at place
    cases place
  | announcing what after =>
    rw [here] at stepped
    obtain ⟨⟨frame, progress⟩, ran, rfl⟩ := Option.map_eq_some_iff.mp stepped
    obtain ⟨rfl, -⟩ := Frame.announced_cases ran
    refine quiet fun result => EngineState.Untouched.not_takes (.inr ?_)
    cases progress <;> rfl
  | truncated message failure pending =>
    rw [here] at stepped
    cases message with
    | none =>
      obtain ⟨⟨frame, progress⟩, ran, rfl⟩ := Option.map_eq_some_iff.mp stepped
      obtain ⟨rfl, -⟩ := Frame.announced_cases ran
      refine quiet fun result => EngineState.Untouched.not_takes (.inr ?_)
      cases progress <;> rfl
    | some message => cases stepped
  | _ =>
    rw [here] at stepped
    cases stepped

/-- **A late result does harm only where a round takes it that does not know it.** -/
theorem late_result_iff {label : EngineLabel} (sound : state.Sound prepared)
    (step : EngineStep prepared state label next) : Harmless state next ↔ Timely state next := by
  have quiet : (∀ result, ¬ state.Takes next result) → (Harmless state next ↔ Timely state next) :=
    fun untaken => iff_of_true (Harmless.of_untaken untaken).1 (Harmless.of_untaken untaken).2
  cases step with
  | code stepped =>
    unfold EngineState.step at stepped
    split at stepped
    all_goals rename_i here
    all_goals first
      | exact harmless_inside sound stepped
      | exact quiet fun result => (EngineState.untouched_alone stepped).not_takes
      | refine iff_of_true (harmless_receiving stepped) fun result round locals place => ?_
        rw [here] at place
        cases place
  | submit =>
    refine quiet fun result => EngineState.not_takes (.inr ?_)
    rcases RunPort.submitMessages_cases state.frame.port _ _ _ with
      ⟨answer, -, refused⟩ | ⟨batch, command, -, -, -, sent⟩
    · rw [refused]
      exact ⟨[], (List.append_nil _).symm⟩
    · rw [sent]
      exact ⟨_, rfl⟩
  | @toolResult result =>
    refine quiet fun other => EngineState.not_takes (.inr ?_)
    rcases state.frame.port.toolResult_cases result with same | sent
    · rw [same]
      exact ⟨[], (List.append_nil _).symm⟩
    · rw [sent]
      exact ⟨_, rfl⟩
  | cancel =>
    refine quiet fun result => EngineState.not_takes (.inr ?_)
    rw [RunPort.cancel_eq]
    exact ⟨_, rfl⟩
  | store foreign =>
    exact quiet fun result => EngineState.not_takes (.inr ⟨[], (List.append_nil _).symm⟩)

/-- **Late results do no harm in exactly the runs whose rounds take none that they do not know.** -/
theorem late_results_iff {start : EngineState D} (initial : EngineStart start)
    (labels : List EngineLabel) (last : EngineState D) :
    ((engineSystem D prepared).restrict Harmless).Run start labels last ↔
      ((engineSystem D prepared).restrict Timely).Run start labels last := by
  have kept : ∀ (state : EngineState D) label after, state.Sound prepared →
      (engineSystem D prepared).step state label after → after.Sound prepared :=
    fun _ _ _ sound step => sound_step sound step
  constructor
  · refine System.Run.restrict_mono kept (fun state label after sound step => ?_) initial.sound
    exact (late_result_iff sound step).mp
  · refine System.Run.restrict_mono kept (fun state label after sound step => ?_) initial.sound
    exact (late_result_iff sound step).mpr

end Late

/-! ### A late result that fails a run -/

/-- The result of the first round, after the round has timed out. -/
def lateResult : ToolResult := ⟨"c1", "late", false, none⟩

/-- A round with the call `c1` that times out, then a round with the call `c2`; the result of `c1` is in
the queue while the second round waits. -/
def sampleLabels : List EngineLabel :=
  sampleProceeds 6 ++ [EngineLabel.code 0 (sampleAnswer "c1")] ++ sampleProceeds 2 ++
    [EngineLabel.code 0 (.await .elapsed)] ++ sampleProceeds 7 ++ [EngineLabel.code 0 (sampleAnswer "c2")] ++
    sampleProceeds 2 ++ [EngineLabel.toolResult lateResult]

/-- The state in which the second round waits, with the result of `c1` in the queue. -/
def sampleWaiting : EngineState HistoryDigest :=
  (sampleLabels.foldlM sampleStep sampleStart).getD sampleStart

/-- The second round has taken the result of `c1`. -/
def sampleFailed : EngineState HistoryDigest :=
  (sampleWaiting.step (samplePrepared "first") 0 (.await (.receive (.toolResult lateResult)))).getD
    sampleWaiting

theorem sampleWaiting_run : (engineSystem HistoryDigest (samplePrepared "first")).Run sampleStart
    sampleLabels sampleWaiting := by
  have runs : (sampleLabels.foldlM sampleStep sampleStart).isSome = true := by decide +kernel
  obtain ⟨last, ran⟩ := Option.isSome_iff_exists.mp runs
  rw [sampleWaiting, ran]
  exact sampleStep_run ran

theorem sampleFailed_step : EngineStep (samplePrepared "first") sampleWaiting
    (.code 0 (.await (.receive (.toolResult lateResult)))) sampleFailed := by
  have runs : (sampleWaiting.step (samplePrepared "first") 0
      (.await (.receive (.toolResult lateResult)))).isSome = true := by decide +kernel
  obtain ⟨next, stepped⟩ := Option.isSome_iff_exists.mp runs
  rw [sampleFailed, stepped]
  exact .code stepped

/-- A late result of an earlier round fails the run. -/
theorem late_result_fails : EngineStart sampleStart ∧
    (engineSystem HistoryDigest (samplePrepared "first")).Run sampleStart sampleLabels sampleWaiting ∧
    EngineStep (samplePrepared "first") sampleWaiting
      (.code 0 (.await (.receive (.toolResult lateResult)))) sampleFailed ∧
    sampleWaiting.Takes sampleFailed lateResult ∧
    lateResult.callId ∈ sampleWaiting.frame.accounted ∧
    sampleFailed.pc = .stop (.failed (.protocol "unknown tool result call_id: c1")) := by
  refine ⟨sampleStart_start, sampleWaiting_run, sampleFailed_step, ⟨?_, ?_⟩, ?_, ?_⟩
  · decide +kernel
  · decide +kernel
  · decide +kernel
  · decide +kernel

/-- The run up to the point where the second round waits. -/
theorem late_results_iff_sample :
    ((engineSystem HistoryDigest (samplePrepared "first")).restrict Harmless).Run sampleStart
      sampleLabels sampleWaiting ↔
    ((engineSystem HistoryDigest (samplePrepared "first")).restrict Timely).Run sampleStart
      sampleLabels sampleWaiting :=
  late_results_iff sampleStart_start sampleLabels sampleWaiting

end Byok
