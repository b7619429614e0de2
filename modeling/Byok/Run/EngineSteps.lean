/-
**The steps of the engine.**

Every step is one of the effects (`effect_of_step`). What is proved about the runs of the engine is
proved from the list of effects, and from here on no proof unfolds `EngineState.step` for that.
-/

import Byok.Run.Effects

namespace Byok

open Library Transaction Store

variable {D : Type} [DecidableEq D] [ChainHash D]

section Effects

variable {prepared : PreparedRun} {state next : EngineState D}

/-! ### Receiving commands -/

theorem effect_of_receiving {event : EngineEvent} (claimed : state.frame.Claimed prepared)
    (stepped : state.stepReceiving prepared state.pc event = some next) :
    state.Effect prepared next := by
  have hungUp : ∀ {next : EngineState D}, state.disconnected = some next →
      state.Effect prepared next := by
    intro next gone
    simp only [EngineState.disconnected, Option.ite_none_right_eq_some] at gone
    cases gone.2
    exact .jump claimed (EnginePc.keeps_stop _)
  have cancelled : ∀ {next : EngineState D}, state.cancelled = some next →
      state.Effect prepared next := by
    intro next gone
    simp only [EngineState.cancelled, Option.ite_none_right_eq_some] at gone
    cases gone.2
    exact .jump claimed (EnginePc.keeps_stop _)
  cases here : state.pc with
  | streaming pending =>
    rw [here] at stepped
    have keeps : ∀ {pc : EnginePc}, pc.Keeps .running pending →
        pc.Keeps state.pc.stage state.pc.held := fun keeps => here ▸ keeps
    cases event with
    | await event =>
      cases event with
      | receive command =>
        refine .take claimed stepped ?_
        rw [here]
        exact EnginePc.keeps_modelCommand
          (fun _ => EnginePc.keeps_running rfl (List.Subset.refl _) rfl rfl)
          EnginePc.keeps_interrupted _ _ _
      | disconnected => exact hungUp stepped
      | _ => cases stepped
    | answered cycle short =>
      cases stepped
      simp only [onAnswer]
      split
      · exact .jump claimed (keeps (EnginePc.keeps_running rfl (List.Subset.refl _) rfl rfl))
      · exact .jump claimed (keeps (EnginePc.keeps_afterAttempt _ _ _))
    | refused failure overLimit =>
      cases stepped
      unfold onFailure
      split
      · exact .jump claimed (EnginePc.keeps_stop _)
      · split
        · exact .jump claimed (keeps (EnginePc.keeps_running rfl (List.Subset.refl _) rfl rfl))
        · split
          · exact .jump claimed (keeps (EnginePc.keeps_running rfl (List.Subset.refl _) rfl rfl))
          · exact .jump claimed (keeps (EnginePc.keeps_finalFailure _ _ _))
    | _ => cases stepped
  | retrying pending =>
    rw [here] at stepped
    cases event with
    | await event =>
      cases event with
      | receive command =>
        refine .take claimed stepped ?_
        rw [here]
        exact EnginePc.keeps_modelCommand
          (fun _ => EnginePc.keeps_running rfl (List.Subset.refl _) rfl rfl)
          EnginePc.keeps_interrupted _ _ _
      | disconnected => exact hungUp stepped
      | cancelled => exact cancelled stepped
      | elapsed =>
        cases stepped
        refine .jump claimed ?_
        rw [here]
        exact EnginePc.keeps_running rfl (List.Subset.refl _) rfl rfl
      | _ => cases stepped
    | _ => cases stepped
  | summarising job =>
    rw [here] at stepped
    cases event with
    | await event =>
      cases event with
      | receive command =>
        refine .take claimed stepped ?_
        rw [here]
        exact EnginePc.keeps_modelCommand
          (fun _ => EnginePc.keeps_running rfl (List.Subset.refl _) rfl rfl)
          (fun _ => EnginePc.keeps_running rfl (List.Subset.refl _) rfl rfl) _ _ _
      | disconnected => exact hungUp stepped
      | _ => cases stepped
    | summarised again =>
      cases stepped
      refine .jump claimed ?_
      rw [here]
      split <;> exact EnginePc.keeps_running rfl (List.Subset.refl _) rfl rfl
    | _ => cases stepped
  | listening =>
    rw [here] at stepped
    cases event with
    | await event =>
      cases event with
      | receive command =>
        refine .take claimed stepped ?_
        rw [here]
        exact EnginePc.keeps_listeningCommand command
      | disconnected => exact hungUp stepped
      | cancelled => exact cancelled stepped
      | elapsed =>
        cases stepped
        refine .jump claimed ?_
        rw [here]
        exact EnginePc.keeps_running rfl (List.nil_subset _) rfl rfl
      | clientClosed =>
        cases stepped
        exact .jump claimed (EnginePc.keeps_stop _)
      | _ => cases stepped
    | _ => cases stepped
  | _ =>
    rw [here] at stepped
    cases stepped

/-! ### Waiting for the store or the model -/

theorem effect_of_appendAnswer {message : CanonicalMessage} {after : EnginePc}
    (claimed : state.frame.Claimed prepared) (keeps : after.Keeps state.pc.stage state.pc.held) :
    state.Effect prepared (state.appendAnswer prepared message after) := by
  unfold EngineState.appendAnswer
  split
  · rename_i checkpoint store ran
    exact .commit (appendCheckpoint_moves claimed (List.cons_ne_nil _ _) ran) keeps
  · exact .jump claimed (EnginePc.keeps_stop _)

theorem effect_of_startCycle {overBudget : Bool} (here : state.pc = .cycle)
    (claimed : state.frame.Claimed prepared)
    (stepped : startCycle prepared state overBudget = some next) : state.Effect prepared next := by
  unfold startCycle at stepped
  split at stepped
  · cases stepped
    exact .jump claimed (EnginePc.keeps_stop _)
  · split at stepped
    · cases stepped
      exact .jump claimed (EnginePc.keeps_stop _)
    · split at stepped
      · cases stepped
        refine .jump claimed ?_
        rw [here]
        exact EnginePc.keeps_running rfl (List.nil_subset _) rfl rfl
      · split at stepped
        · cases stepped
          refine .jump claimed ?_
          rw [here]
          exact EnginePc.keeps_running rfl (List.nil_subset _) rfl rfl
        · cases stepped

theorem effect_of_replaceAutomatically {job : CompactionJob} {estimates : Estimates} {text : String}
    {refusal : Option String} (here : state.pc = .replacing job)
    (claimed : state.frame.Claimed prepared) :
    state.Effect prepared (replaceAutomatically prepared state job estimates text refusal) := by
  unfold replaceAutomatically
  simp only
  split
  · exact .jump claimed (EnginePc.keeps_stop _)
  · rename_i checkpoint store replaced
    obtain ⟨messages, -, replaced⟩ := Library.except_bind_eq_ok.mp replaced
    obtain ⟨projected, -, replaced⟩ := Library.except_bind_eq_ok.mp replaced
    split at replaced
    · cases replaced
    · obtain ⟨claimed', grown⟩ := replaceCheckpoint_claimed claimed replaced
      refine .replace claimed' grown rfl ?_
      rw [here]
      exact EnginePc.keeps_running rfl (List.Subset.refl _) rfl rfl

theorem effect_of_replaceManually {pending : List MessageBatch} {estimates : Estimates}
    {text : String} (here : state.pc = .manualReplacing pending)
    (claimed : state.frame.Claimed prepared) :
    state.Effect prepared (replaceManually prepared state pending estimates text) := by
  unfold replaceManually
  simp only
  split
  · exact .jump claimed (EnginePc.keeps_stop _)
  · rename_i checkpoint store replaced
    obtain ⟨messages, -, replaced⟩ := Library.except_bind_eq_ok.mp replaced
    obtain ⟨claimed', grown⟩ := replaceCheckpoint_claimed claimed replaced
    refine .replace claimed' grown rfl ?_
    rw [here]
    simp only [EngineState.committed]
    split
    · rename_i none
      exact EnginePc.keeps_running rfl (by simp [none]) rfl rfl
    · exact EnginePc.keeps_running rfl (List.Subset.refl _) rfl rfl

theorem effect_of_finishFailed {outcome : RunOutcome} {tries : Nat}
    (claimed : state.frame.Claimed prepared) :
    state.Effect prepared (onFinishFailed state outcome tries) := by
  unfold onFinishFailed
  split
  · exact .jump claimed ⟨.inl rfl, rfl, rfl⟩
  · exact .finish (.inl rfl)

theorem effect_of_storeFailed {nowMs : Int} {error : Error}
    (claimed : state.pc.unclaimed = false → state.frame.Claimed prepared)
    (stepped : state.stepAlone prepared nowMs state.pc (.await (.storeFailed error)) = some next) :
    state.Effect prepared next := by
  cases here : state.pc with
  | claiming =>
    rw [here] at stepped
    cases stepped
    exact .finish (.inl rfl)
  | ended outcome tries =>
    rw [here] at stepped
    cases stepped
    exact effect_of_finishFailed (claimed (here ▸ rfl))
  | collecting todo pending =>
    rw [here] at stepped
    cases todo with
    | nil => cases stepped
    | cons message todo =>
      simp only [EngineState.stepAlone, Option.ite_none_right_eq_some] at stepped
      cases stepped.2
      exact .jump (claimed (here ▸ rfl)) (EnginePc.keeps_stop _)
  | truncated message failure pending =>
    rw [here] at stepped
    cases message <;> cases stepped
    exact .jump (claimed (here ▸ rfl)) (EnginePc.keeps_stop _)
  | _ =>
    rw [here] at stepped
    first
      | cases stepped; done
      | cases stepped
        exact .jump (claimed (here ▸ rfl)) (EnginePc.keeps_stop _)

theorem effect_of_storing {nowMs : Int} {pending : List CanonicalMessage}
    {known : List ChainIdentity} {delivered : Bool} (here : state.pc = .storing pending known delivered)
    (claimed : state.frame.Claimed prepared) (same : known = state.frame.chain.map chainIdentity)
    (stepped : state.stepAlone prepared nowMs (.storing pending known delivered) (.await .proceed) =
      some next) : state.Effect prepared next := by
  subst same
  simp only [EngineState.stepAlone] at stepped
  split at stepped
  · rename_i appended store ran
    cases stepped
    refine .commit (appendMessagesOnce_moves claimed ran) ?_
    rw [here]
    exact EnginePc.keeps_afterStoring _ _
  · cases stepped
    exact .jump claimed (EnginePc.keeps_stop _)

theorem effect_of_calling {nowMs : Int}
    (here : state.pc = .calling ∨ ∃ job, state.pc = .summaryCalling job)
    (claimed : state.frame.Claimed prepared)
    (stepped : state.stepAlone prepared nowMs state.pc (.await .proceed) = some next) :
    state.Effect prepared next := by
  rcases here with here | ⟨job, here⟩
  · rw [here] at stepped
    simp only [EngineState.stepAlone] at stepped
    split at stepped
    · cases stepped
      refine .jump claimed ?_
      rw [here]
      exact EnginePc.keeps_running rfl (List.nil_subset _) rfl rfl
    · cases stepped
      exact .jump claimed (EnginePc.keeps_stop _)
  · rw [here] at stepped
    simp only [EngineState.stepAlone] at stepped
    split at stepped
    · cases stepped
      exact .jump claimed (EnginePc.keeps_stop _)
    · cases stepped
      exact .jump claimed (EnginePc.keeps_stop _)
    · cases stepped
      refine .jump claimed ?_
      rw [here]
      exact EnginePc.keeps_running rfl (List.Subset.refl _) rfl rfl

theorem effect_of_ended {nowMs : Int} {outcome : RunOutcome} {tries : Nat}
    (claimed : state.frame.Claimed prepared)
    (stepped : state.stepAlone prepared nowMs (.ended outcome tries) (.await .proceed) = some next) :
    state.Effect prepared next := by
  simp only [EngineState.stepAlone] at stepped
  split at stepped
  · rename_i released store ran
    cases stepped
    have applied : (Operation.finishRun prepared.runId (finalStatus outcome tries).1
        (finalStatus outcome tries).2).transaction state.frame.store = .ok ((), store) :=
      ignore_ok.mpr ⟨released, ran⟩
    exact .finish (.inr ⟨_, _, (Operation.apply_of_ok applied).symm⟩)
  · cases stepped
    exact effect_of_finishFailed claimed

theorem effect_of_proceed {nowMs : Int}
    (claimed : state.pc.unclaimed = false → state.frame.Claimed prepared)
    (known : ∀ known ∈ state.pc.known?, known = state.frame.chain.map chainIdentity)
    (stepped : state.stepAlone prepared nowMs state.pc (.await .proceed) = some next) :
    state.Effect prepared next := by
  cases here : state.pc with
  | claiming =>
    rw [here] at stepped
    simp only [EngineState.stepAlone] at stepped
    split at stepped
    · rename_i ran
      cases stepped
      exact .claim here ran
    · cases stepped
      exact .finish (.inl rfl)
  | settings =>
    rw [here] at stepped
    cases stepped
    refine .jump (claimed (here ▸ rfl)) ?_
    rw [here]
    exact EnginePc.keeps_running rfl (List.nil_subset _) rfl rfl
  | collecting todo pending =>
    rw [here] at stepped
    cases stepped
    refine .jump (claimed (here ▸ rfl)) ?_
    rw [here]
    exact EnginePc.keeps_collect _ _ _
  | reading pending delivered =>
    rw [here] at stepped
    cases stepped
    have claimed := claimed (here ▸ rfl)
    refine .advance (claimed.still _ _) .rest (.inr ?_) ?_ (forall_of_none rfl)
    · rw [here]
      exact ⟨rfl, List.nil_subset _⟩
    · intro known member
      cases member
      exact claimed.identities
  | storing pending known' delivered =>
    rw [here] at stepped known
    exact effect_of_storing here (claimed (here ▸ rfl)) (known known' rfl) stepped
  | cycle =>
    rw [here] at stepped
    exact effect_of_startCycle here (claimed (here ▸ rfl)) stepped
  | calling => exact effect_of_calling (.inl here) (claimed (here ▸ rfl)) stepped
  | summaryCalling job => exact effect_of_calling (.inr ⟨job, here⟩) (claimed (here ▸ rfl)) stepped
  | hydrating =>
    rw [here] at stepped
    cases stepped
    refine .jump (claimed (here ▸ rfl)) ?_
    rw [here]
    exact EnginePc.keeps_running rfl (List.nil_subset _) rfl rfl
  | answering message pending =>
    rw [here] at stepped
    cases stepped
    refine effect_of_appendAnswer (claimed (here ▸ rfl)) ?_
    rw [here]
    split
    · rename_i none
      exact EnginePc.keeps_running rfl (by simp [none]) rfl rfl
    · exact EnginePc.keeps_running rfl (List.Subset.refl _) rfl rfl
  | truncated message failure pending =>
    rw [here] at stepped
    cases message <;> cases stepped
    refine effect_of_appendAnswer (claimed (here ▸ rfl)) ?_
    rw [here]
    exact EnginePc.keeps_running rfl (List.Subset.refl _) rfl rfl
  | finalizing closing =>
    rw [here] at stepped
    cases stepped
    exact .finalize here
  | ended outcome tries =>
    rw [here] at stepped
    exact effect_of_ended (claimed (here ▸ rfl)) stepped
  | _ =>
    rw [here] at stepped
    cases stepped

/-! ### The other places -/

/-- What a place outside of the loops makes of an event. -/
inductive EngineState.Alone (prepared : PreparedRun) (state next : EngineState D) : EngineEvent → Prop
  | proceed : Alone prepared state next (.await .proceed)
  | storeFailed (error : Error) : Alone prepared state next (.await (.storeFailed error))
  | overBudget (here : state.pc = .cycle) (stepped : startCycle prepared state true = some next) :
    Alone prepared state next .overBudget
  | background {running : Bool} (here : state.pc = .background)
    (is : next = state.goto (if running then .listening else .finalizing .finalTurn)) :
    Alone prepared state next (.background running)
  | validated {job : CompactionJob} {refusal : Option String} (here : state.pc = .compacting job)
    (is : next = state.goto (startCompaction prepared state.frame job refusal)) :
    Alone prepared state next (.validated refusal)
  | replaced {job : CompactionJob} {estimates : Estimates} {text : String} {refusal : Option String}
    (here : state.pc = .replacing job) (is : next = replaceAutomatically prepared state job estimates text refusal) :
    Alone prepared state next (.summary estimates text refusal)
  | replacedManually {pending : List MessageBatch} {estimates : Estimates} {text : String} {refusal : Option String}
    (here : state.pc = .manualReplacing pending) (is : next = replaceManually prepared state pending estimates text) :
    Alone prepared state next (.summary estimates text refusal)

theorem EngineState.alone {nowMs : Int} {event : EngineEvent}
    (stepped : state.stepAlone prepared nowMs state.pc event = some next) : state.Alone prepared next event := by
  unfold EngineState.stepAlone at stepped
  split at stepped
  all_goals first
    | exact .proceed
    | exact .storeFailed _
    | exact .overBudget ‹_› stepped
    | cases stepped; done
    | cases stepped
      first
        | exact .background ‹_› rfl
        | exact .validated ‹_› rfl
        | exact .replaced ‹_› rfl
        | exact .replacedManually ‹_› rfl

theorem effect_of_alone {nowMs : Int} {event : EngineEvent}
    (claimed : state.pc.unclaimed = false → state.frame.Claimed prepared)
    (known : ∀ known ∈ state.pc.known?, known = state.frame.chain.map chainIdentity)
    (stepped : state.stepAlone prepared nowMs state.pc event = some next) :
    state.Effect prepared next := by
  cases EngineState.alone stepped with
  | proceed => exact effect_of_proceed claimed known stepped
  | storeFailed error => exact effect_of_storeFailed claimed stepped
  | overBudget here cycled => exact effect_of_startCycle here (claimed (here ▸ rfl)) cycled
  | @background running here is =>
    subst is
    refine .jump (claimed (here ▸ rfl)) ?_
    rw [here]
    cases running <;> exact EnginePc.keeps_running rfl (List.nil_subset _) rfl rfl
  | validated here is =>
    subst is
    refine .jump (claimed (here ▸ rfl)) ?_
    rw [here]
    exact EnginePc.keeps_startCompaction _ _ _
  | replaced here is =>
    subst is
    exact effect_of_replaceAutomatically here (claimed (here ▸ rfl))
  | replacedManually here is =>
    subst is
    exact effect_of_replaceManually here (claimed (here ▸ rfl))

/-- **What a step of the engine can do.** -/
theorem effect_of_step {nowMs : Int} {event : EngineEvent}
    (claimed : state.pc.unclaimed = false → state.frame.Claimed prepared)
    (known : ∀ known ∈ state.pc.known?, known = state.frame.chain.map chainIdentity)
    (delivering : ∀ batch ∈ state.pc.delivering?, Carries state.frame.chain batch)
    (stepped : state.step prepared nowMs event = some next) : state.Effect prepared next := by
  unfold EngineState.step at stepped
  split at stepped
  all_goals rename_i here
  all_goals first
    | exact effect_of_inside (claimed (here ▸ rfl)) known delivering stepped
    | exact effect_of_receiving (claimed (here ▸ rfl)) stepped
    | exact effect_of_alone claimed known stepped

end Effects

end Byok
