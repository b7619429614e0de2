/-
**Whole runs of the engine.**

Two invariants, each derived from the effects of a step and from what a handle and the store may do in
between.

* `EngineState.Sound` — the checkpoint that the code goes by is the head of the run, what was read of
  its chain is still there, and a batch that is about to be answered is on it.
* `EngineState.Custody` — the phase of the port fits the place of the run, and every batch that was
  enqueued is answered, in the queue, or in the hands of the run.
-/

import Byok.Run.EngineSteps

set_option linter.unusedSectionVars false

namespace Byok

open Library Transaction Store List

variable {D : Type} [DecidableEq D] [ChainHash D]

/-- The run and its store agree. -/
structure EngineState.Sound (prepared : PreparedRun) (state : EngineState D) : Prop where
  wellFormed : state.frame.store.WellFormed
  claimed : state.pc.unclaimed = false → state.frame.Claimed prepared
  known : ∀ known ∈ state.pc.known?, known = state.frame.chain.map chainIdentity
  delivering : ∀ batch ∈ state.pc.delivering?, Carries state.frame.chain batch

/-- No batch gets lost. -/
structure EngineState.Custody (state : EngineState D) : Prop where
  running : state.pc.stage = .running → state.frame.port.phase = .running
  closing : state.pc.stage = .draining ∨ state.pc.stage = .drained →
    state.frame.port.phase = .finalizing
  drained : state.pc.stage = .drained → state.frame.port.queued = []
  kept : state.pc.stage ≠ .closed → ∀ batch ∈ state.frame.port.enqueued,
    batch ∈ state.frame.port.delivered.map (·.batch) ∨
      batch ∈ state.frame.port.queued ++ state.pc.held

section Places

theorem EnginePc.idle_of_unclaimed {pc : EnginePc} (unclaimed : pc.unclaimed = true) :
    pc.known? = none ∧ pc.delivering? = none ∧ pc.stage ≠ .drained := by
  cases pc with
  | claiming => exact ⟨rfl, rfl, by simp⟩
  | finished outcome => exact ⟨rfl, rfl, by simp⟩
  | _ => cases unclaimed

theorem EnginePc.claimed_of_delivering {pc : EnginePc} {batch : MessageBatch}
    (here : pc.delivering? = some batch) : pc.unclaimed = false := by
  by_contra claimed
  rw [(EnginePc.idle_of_unclaimed (by simpa using claimed)).2.1] at here
  cases here

theorem EnginePc.claimed_of_drained {pc : EnginePc} (here : pc.stage = .drained) :
    pc.unclaimed = false := by
  by_contra claimed
  exact (EnginePc.idle_of_unclaimed (by simpa using claimed)).2.2 here

end Places

section Runs

variable {prepared : PreparedRun} {state next : EngineState D}

/-! ### The run and its store -/

theorem claimRun_claimed {store : Store D} (wellFormed : store.WellFormed) {nowMs : Int}
    {claimed : ClaimedRun} {after : Store D}
    (ran : claimRun prepared nowMs store = .ok (claimed, after)) (frame : Frame D) :
    ({ frame with store := after, checkpoint := claimed.headCheckpointId } : Frame D).Claimed
      prepared := by
  have wellFormed := wellFormed_writesMany wellFormed (claimRun_writes ran)
  obtain ⟨current, between, -, -, -, rfl, rfl⟩ := claimRun_ok ran
  refine ⟨wellFormed, claimedRow prepared nowMs, ?_, rfl, rfl⟩
  show (claim prepared nowMs between).runs prepared.runId = _
  rw [claim_runs, if_pos rfl]

theorem EngineState.Sound.of_claimed (claimed : next.frame.Claimed prepared)
    (known : next.pc.known? = none) (delivering : next.pc.delivering? = none) :
    next.Sound prepared :=
  ⟨claimed.wellFormed, fun _ => claimed, forall_of_none known, forall_of_none delivering⟩

theorem Frame.Claimed.port {frame : Frame D} (claimed : frame.Claimed prepared) (port : RunPort) :
    ({ frame with port } : Frame D).Claimed prepared := ⟨claimed.wellFormed, claimed.run⟩

theorem EngineState.Effect.sound (effect : state.Effect prepared next)
    (sound : state.Sound prepared) : next.Sound prepared := by
  cases effect with
  | claim here ran => exact .of_claimed (claimRun_claimed sound.wellFormed ran _) rfl rfl
  | advance moves port stage known delivering =>
    exact ⟨moves.claimed.wellFormed, fun _ => moves.claimed, known, delivering⟩
  | replace claimed grown port keeps => exact .of_claimed claimed keeps.known keeps.delivering
  | deliver here answer frame stage held known delivering =>
    have claimed := sound.claimed (EnginePc.claimed_of_delivering here)
    refine .of_claimed ?_ known delivering
    rw [frame]
    exact claimed.port _
  | finalize here => exact .of_claimed ((sound.claimed (here ▸ rfl)).port _) rfl rfl
  | drained here empty keeps =>
    exact .of_claimed (sound.claimed (here ▸ rfl)) keeps.known keeps.delivering
  | resume stage held =>
    exact .of_claimed ((sound.claimed (EnginePc.claimed_of_drained stage)).port _) rfl rfl
  | finish ended =>
    refine ⟨?_, (fun claimed => by cases claimed), forall_of_none rfl, forall_of_none rfl⟩
    rcases ended with same | ⟨status, failure, finished⟩
    · exact same ▸ sound.wellFormed
    · rw [EngineState.finish, finished]
      exact wellFormed_writesMany sound.wellFormed (Operation.apply_writes sound.wellFormed _)

theorem EngineState.Sound.port (sound : state.Sound prepared) (port : RunPort) :
    ({ state with frame := { state.frame with port } } : EngineState D).Sound prepared :=
  ⟨sound.wellFormed, fun claimed => (sound.claimed claimed).port _, sound.known, sound.delivering⟩

theorem EngineState.Sound.store (sound : state.Sound prepared) {operation : Operation}
    (foreign : ¬ operation.CommitOf prepared.runId) :
    ({ state with frame := { state.frame with store := operation.apply state.frame.store } } :
      EngineState D).Sound prepared := by
  have wellFormed := wellFormed_writesMany sound.wellFormed
    (Operation.apply_writes sound.wellFormed operation)
  by_cases here : state.pc.unclaimed = true
  · obtain ⟨known, delivering, -⟩ := EnginePc.idle_of_unclaimed here
    refine ⟨wellFormed, fun claimed => ?_, forall_of_none known, forall_of_none delivering⟩
    have claimed : state.pc.unclaimed = false := claimed
    rw [claimed] at here
    cases here
  · have moves := foreign_moves (sound.claimed (by simpa using here)) foreign
    have chain := moves.chain
    rw [append_nil] at chain
    refine ⟨wellFormed, fun _ => moves.claimed, ?_, ?_⟩
    · rw [chain]
      exact sound.known
    · rw [chain]
      exact sound.delivering

theorem EngineState.Sound.effect {nowMs : Int} {event : EngineEvent} (sound : state.Sound prepared)
    (stepped : state.step prepared nowMs event = some next) : state.Effect prepared next :=
  effect_of_step sound.claimed sound.known sound.delivering stepped

theorem sound_step {label : EngineLabel} (sound : state.Sound prepared)
    (step : EngineStep prepared state label next) : next.Sound prepared := by
  cases step with
  | code stepped => exact (sound.effect stepped).sound sound
  | submit => exact sound.port _
  | toolResult => exact sound.port _
  | cancel => exact sound.port _
  | store foreign => exact sound.store foreign

theorem EngineStart.sound (start : EngineStart state) : state.Sound prepared where
  wellFormed := wellFormed_of_reachable start.reachable
  claimed claimed := by
    rw [start.pc] at claimed
    cases claimed
  known := by
    rw [start.pc]
    exact forall_of_none rfl
  delivering := by
    rw [start.pc]
    exact forall_of_none rfl

/-! ### The batches -/

theorem RunPort.Gives.phase {port after : RunPort} {gained : List MessageBatch}
    (gives : port.Gives gained after) : after.phase = port.phase ∧
      after.enqueued = port.enqueued ∧ after.delivered = port.delivered ∧
      port.queued = gained ++ after.queued := by
  cases gives with
  | rest => exact ⟨rfl, rfl, rfl, rfl⟩
  | take queue => exact ⟨rfl, rfl, rfl, RunPort.queued_receive queue⟩

theorem EngineState.Effect.custody (effect : state.Effect prepared next)
    (custody : state.Custody) : next.Custody := by
  cases effect with
  | claim here ran =>
    have running := custody.running
    have kept := custody.kept
    rw [here] at running kept
    exact ⟨fun _ => running rfl, fun closing => by simp [EngineState.committed] at closing,
      fun drained => by simp [EngineState.committed] at drained, fun _ => kept (by simp)⟩
  | @advance next additions steps gained moves port stage known delivering =>
    obtain ⟨phase, enqueued, delivered, queued⟩ := port.phase
    rcases stage with closed | ⟨same, held⟩
    · constructor <;> simp [closed]
    · constructor
      case running => exact fun here => phase.trans (custody.running (same ▸ here))
      case closing => exact fun here => phase.trans (custody.closing (same ▸ here))
      case drained =>
        intro here
        have empty := custody.drained (same ▸ here)
        rw [queued] at empty
        exact (append_eq_nil_iff.mp empty).2
      case kept =>
        intro ongoing batch member
        rw [delivered]
        rcases custody.kept (same ▸ ongoing) batch (enqueued ▸ member) with answered | waiting
        · exact .inl answered
        · rw [queued] at waiting
          have taken : ∀ batch ∈ state.pc.held ++ gained, batch ∈ next.pc.held := held
          simp only [mem_append] at waiting taken ⊢
          rcases waiting with (fresh | left) | old
          · exact .inr (.inr (taken batch (.inr fresh)))
          · exact .inr (.inl left)
          · exact .inr (.inr (taken batch (.inl old)))
  | replace claimed grown port keeps =>
    rcases keeps.stage with closed | ⟨same, held⟩
    · constructor <;> simp [closed]
    · constructor
      case running => exact fun here => port ▸ custody.running (same ▸ here)
      case closing => exact fun here => port ▸ custody.closing (same ▸ here)
      case drained => exact fun here => port ▸ custody.drained (same ▸ here)
      case kept =>
        intro ongoing batch member
        rw [port] at member ⊢
        refine (custody.kept (same ▸ ongoing) batch member).imp_right fun waiting => ?_
        exact mem_append.mpr ((mem_append.mp waiting).imp_right fun old => held old)
  | @deliver next batch result here answer frame stage held known delivering =>
    constructor
    case running => exact fun here => frame ▸ custody.running (stage ▸ here)
    case closing => exact fun here => frame ▸ custody.closing (stage ▸ here)
    case drained => exact fun here => frame ▸ custody.drained (stage ▸ here)
    case kept =>
      intro ongoing other member
      rw [frame] at member ⊢
      simp only [RunPort.deliver, map_append, map_cons, map_nil, mem_append,
        mem_singleton]
      rcases custody.kept (stage ▸ ongoing) other member with answered | waiting
      · exact .inl (.inl answered)
      · rcases mem_append.mp waiting with queued | old
        · exact .inr (.inl queued)
        · rcases mem_cons.mp (held old) with rfl | left
          · exact .inl (.inr rfl)
          · exact .inr (.inr left)
  | finalize here =>
    have running := custody.running
    have kept := custody.kept
    rw [here] at running kept
    constructor
    case running =>
      intro stage
      cases stage
    case closing => simp [RunPort.beginFinalizing, running rfl]
    case drained =>
      intro stage
      cases stage
    case kept =>
      intro _ batch member
      simp only [RunPort.beginFinalizing, running rfl, if_true] at member ⊢
      exact kept (by simp) batch member
  | drained here empty keeps =>
    have closing := custody.closing (.inl (here ▸ rfl))
    have kept := custody.kept (by simp [here])
    have none : state.frame.port.queued = [] := by simp [RunPort.queued, empty]
    rcases keeps.stage with closed | ⟨same, held⟩
    · constructor <;> simp [EngineState.goto, closed]
    · constructor
      case running => simp [EngineState.goto, same]
      case closing => exact fun _ => closing
      case drained => exact fun _ => none
      case kept =>
        intro _ batch member
        refine (kept batch member).imp_right fun waiting => ?_
        rw [none, nil_append, here] at waiting
        exact mem_append_right _ (held waiting)
  | resume stage held =>
    have closing := custody.closing (.inr stage)
    have kept := custody.kept (by simp [stage])
    constructor
    case running => simp [RunPort.resumeRunning, closing]
    case closing => simp
    case drained => simp
    case kept =>
      intro _ batch member
      simp only [RunPort.resumeRunning, closing, if_true] at member ⊢
      have waiting := kept batch member
      rw [held] at waiting
      exact waiting
  | finish ended => constructor <;> simp [EngineState.finish]

/-- A handle puts a batch into the queue of a run that is in phase `running`, and nothing else. -/
theorem EngineState.Custody.submit (custody : state.Custody) (eventId : String)
    (messages : List CanonicalMessage) (shouldBreak : Bool) :
    ({ state with frame := { state.frame with
      port := (state.frame.port.submitMessages eventId messages shouldBreak).2 } } :
        EngineState D).Custody := by
  rcases state.frame.port.submitMessages_cases eventId messages shouldBreak with
    ⟨result, -, refused⟩ | ⟨batch, command, -, brings, phase, sent⟩
  · rw [refused]
    exact custody
  · rw [sent]
    have queued := RunPort.queued_send state.frame.port command
    rw [brings, Option.toList_some] at queued
    constructor
    case running => exact fun _ => phase
    case closing =>
      intro here
      rw [custody.closing here] at phase
      cases phase
    case drained =>
      intro here
      rw [custody.closing (.inr here)] at phase
      cases phase
    case kept =>
      intro ongoing other member
      have queued : ({ state.frame.port with
          commands := state.frame.port.commands ++ [command]
          enqueued := state.frame.port.enqueued ++ [batch] } : RunPort).queued =
          state.frame.port.queued ++ [batch] := queued
      show other ∈ state.frame.port.delivered.map (·.batch) ∨ other ∈ _ ++ state.pc.held
      rw [queued]
      rcases mem_append.mp member with old | new
      · refine (custody.kept ongoing other old).imp_right fun waiting => ?_
        rcases mem_append.mp waiting with queued | held
        · exact mem_append_left _ (mem_append_left _ queued)
        · exact mem_append_right _ held
      · exact .inr (mem_append_left _ (mem_append_right _ new))

theorem EngineState.Custody.same (custody : state.Custody) {port : RunPort}
    (phase : port.phase = state.frame.port.phase) (enqueued : port.enqueued = state.frame.port.enqueued)
    (delivered : port.delivered = state.frame.port.delivered)
    (queued : port.queued = state.frame.port.queued) :
    ({ state with frame := { state.frame with port } } : EngineState D).Custody where
  running here := phase.trans (custody.running here)
  closing here := phase.trans (custody.closing here)
  drained here := queued.trans (custody.drained here)
  kept ongoing batch member := by
    show batch ∈ port.delivered.map (·.batch) ∨ batch ∈ port.queued ++ state.pc.held
    rw [delivered, queued]
    exact custody.kept ongoing batch (enqueued ▸ member)

theorem custody_step {label : EngineLabel} (sound : state.Sound prepared) (custody : state.Custody)
    (step : EngineStep prepared state label next) : next.Custody := by
  cases step with
  | code stepped => exact (sound.effect stepped).custody custody
  | submit => exact custody.submit _ _ _
  | @toolResult result =>
    rcases state.frame.port.toolResult_cases result with same | sent
    · rw [same]
      exact custody
    · have queued := state.frame.port.queued_toolResult result
      rw [sent] at queued ⊢
      exact custody.same rfl rfl rfl queued
  | cancel =>
    have queued := state.frame.port.queued_cancel
    rw [RunPort.cancel_eq] at queued ⊢
    exact custody.same rfl rfl rfl queued
  | store foreign => exact ⟨custody.running, custody.closing, custody.drained, custody.kept⟩

theorem EngineStart.custody (start : EngineStart state) : state.Custody := by
  constructor <;> simp [start.pc, start.port, RunPort.new]

/-- **No batch gets lost in any run.** -/
theorem custody_of_reachable (reachable : (engineSystem D prepared).Reachable state) :
    state.Custody := by
  have both : state.Sound prepared ∧ state.Custody := by
    -- a step is one of the effects as long as the run and its store agree
    refine @System.reachable_invariant _ _ _ (fun state => state.Sound prepared ∧ state.Custody)
      (fun _ start => ⟨EngineStart.sound start, EngineStart.custody start⟩)
      (fun _ _ _ holds step => ?_) state reachable
    exact ⟨sound_step holds.1 step, custody_step holds.1 holds.2 step⟩
  exact both.2

end Runs

end Byok
