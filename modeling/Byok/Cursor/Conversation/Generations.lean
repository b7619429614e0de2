/-
**The generations of a transport.**

* `TaskMove`, `Step.does` — what the task of a generation changes: its own generation, and the queue by its report.
* `Ordered` — every generation but the newest is superseded, and each waits for the one before it.
* `generations_apart` — a generation begins when all before it have ended.
* `generations_overlap` — three requests in a row: the third begins while the first still runs.
-/

import Byok.Cursor.Conversation.Actor
import Byok.Library.Gather

namespace Byok.Cursor.Conversation

open Library List

/-- A generation whose task has reported its end, or ended. -/
def Generation.Done (generation : Generation) : Prop := generation.stage = .reported ∨ generation.stage = .ended

/-- A generation whose task is behind its wait and has not ended. -/
def Generation.Works (generation : Generation) : Prop :=
  generation.stage ≠ .ended ∧ ∀ previous, generation.stage ≠ .waiting previous

namespace Transport

variable {transport after : Transport} {label : Label}

/-! ### What a task does -/

/-- A task changes its own generation, and may report its end. -/
structure TaskMove (transport : Transport) (label : Label) (index : Nat) (old new : Generation) (after : Transport) :
    Prop where
  at_index : transport.generations[index]? = some old
  alive : old.stage ≠ .ended
  superseded : new.superseded = old.superseded
  waits : ∀ previous, new.stage ≠ .waiting previous
  begun : ∀ previous, old.stage = .waiting previous →
    label = .begins index ∧ transport.previousFinished previous = true ∧ new.stage ≠ .ended ∨
      label = .givesUp index ∧ old.superseded = true ∧ new.stage = .ended
  begins : ∀ other, label = .begins other → other = index ∧ ∃ previous, old.stage = .waiting previous
  done : old.Done → new.Done
  cancelled : old.superseded = true → (old.stage ≠ .registered → ∀ run, old.run = some run → run.cancelled = true) →
    new.stage ≠ .registered → ∀ run, new.run = some run → run.cancelled = true
  after_eq : ∃ reports : List TransportCommand,
    (∀ command ∈ reports, new.Done ∧ ∃ finish, command = .runFinished index finish) ∧
    after = { transport with
      generations := transport.generations.set index new
      queue := transport.queue ++ reports }

theorem change_eq {index : Nat} {generation : Generation} (at_index : transport.generations[index]? = some generation)
    (update : Generation → Generation) :
    transport.change index update =
      { transport with generations := transport.generations.set index (update generation) } := by
  unfold change
  rw [modify_eq_set_getElem?, at_index]
  rfl

theorem setConversationId_ok {conversationId : String} {bound : Transport}
    (set : transport.setConversationId conversationId = .ok bound) :
    ∃ conversationId, (∀ id, transport.conversationId = some id → conversationId = some id) ∧
      bound = { transport with conversationId := conversationId } := by
  unfold setConversationId at set
  split at set
  · cases set
  · split at set
    case h_1 unbound => exact ⟨_, fun id is => absurd (unbound.symm.trans is) (Option.some_ne_none id).symm,
        (Except.ok.inj set).symm⟩
    case h_2 =>
      split at set
      · exact ⟨transport.conversationId, fun _ is => is, (Except.ok.inj set).symm⟩
      · cases set

/-- All that a step can do. -/
inductive Does (transport : Transport) (label : Label) (after : Transport) : Prop
  | client (lifecycle : Lifecycle) (conversationId : Option String) (commands : List TransportCommand)
    (from_client : ∀ generation finish, .runFinished generation finish ∉ commands) (label_eq : label = .client)
    (kept : ∀ id, transport.conversationId = some id → conversationId = some id)
    (after_eq : after = { transport with
      lifecycle := lifecycle
      conversationId := conversationId
      queue := transport.queue ++ commands })
  | receives {command : TransportCommand} {rest : List TransportCommand} (now : Nat) (lifecycle : Lifecycle)
    (runs : transport.stopped = false) (next : transport.queue = command :: rest) (label_eq : label = .receives)
    (after_eq : after = ({ transport with lifecycle := lifecycle, queue := rest } : Transport).command now command)
  | handles {message : ClientMessage} {rest : List ClientMessage} (runs : transport.stopped = false)
    (next : transport.ready = message :: rest) (label_eq : label = .handles message)
    (after_eq : after = ({ transport with ready := rest } : Transport).message message)
  | drains (runs : transport.stopped = false) (draining : transport.draining = true) (label_eq : label = .drains)
    (after_eq : after = ({ transport.marked.finishPending with pendingFinish := none } : Transport).stop)
  | idles (runs : transport.stopped = false) (waits : transport.waitingForAction = true) (label_eq : label = .idles)
    (after_eq : after = transport.idle)
  | task {index : Nat} {old new : Generation} (move : TaskMove transport label index old new after)

theorem Step.does (step : transport.Step label after) : Does transport label after := by
  -- a step of a task that is behind its wait
  have goes {index : Nat} {old new : Generation} (update : Generation → Generation) (reports : List TransportCommand)
      (at_index : transport.generations[index]? = some old) (is : update old = new) (works : old.Works)
      (superseded : new.superseded = old.superseded) (waits : ∀ previous, new.stage ≠ .waiting previous)
      (done : old.Done → new.Done)
      (cancelled : old.superseded = true → (old.stage ≠ .registered → ∀ run, old.run = some run → run.cancelled = true) →
        new.stage ≠ .registered → ∀ run, new.run = some run → run.cancelled = true)
      (reported : ∀ command ∈ reports, new.Done ∧ ∃ finish, command = .runFinished index finish) :
      Does transport (.goesOn index)
        { transport.change index update with queue := transport.queue ++ reports } := by
    refine .task ⟨at_index, works.1, superseded, waits, fun previous is => absurd is (works.2 previous), nofun, done, cancelled,
      reports, reported, ?_⟩
    rw [change_eq at_index, is]
  have quiet {index : Nat} {update : Generation → Generation}
      (does : Does transport (.goesOn index) { transport.change index update with queue := transport.queue ++ [] }) :
      Does transport (.goesOn index) (transport.change index update) := by
    rw [append_nil] at does
    exact does
  cases step with
  | sends command from_client =>
    refine .client transport.lifecycle transport.conversationId [command] (fun generation finish there => ?_) rfl
      (fun _ is => is) rfl
    exact from_client generation finish (mem_singleton.mp there).symm
  | @admits lifecycle admitted =>
    exact .client lifecycle transport.conversationId [] nofun rfl (fun _ is => is) (by rw [append_nil])
  | releasesAdmission => 
    exact .client transport.lifecycle.release transport.conversationId [] nofun rfl (fun _ is => is)
      (by rw [append_nil])
  | closes =>
    exact .client transport.lifecycle.close transport.conversationId [] nofun rfl (fun _ is => is)
      (by rw [append_nil])
  | binds set =>
    obtain ⟨conversationId, kept, rfl⟩ := setConversationId_ok set
    exact .client transport.lifecycle conversationId [] nofun rfl kept (by rw [append_nil])
  | receives now runs idle next =>
    by_cases draining : transport.draining = true
    · refine .receives now transport.lifecycle.markDraining runs next rfl ?_
      rw [marked, if_pos draining]
    · refine .receives now transport.lifecycle runs next rfl ?_
      rw [marked, if_neg draining]
  | handles runs next => exact .handles runs next rfl rfl
  | drains runs idle draining drained empty => exact .drains runs draining rfl rfl
  | idles runs idle flows waits => exact .idles runs waits rfl rfl
  | @givesUp index generation previous at_index waits superseded =>
    refine @Does.task _ _ _ index generation { generation with stage := .ended } ⟨at_index, by rw [waits]; nofun, rfl, nofun,
      fun _ _ => .inr ⟨rfl, superseded, rfl⟩, nofun, fun _ => .inr rfl, fun _ kept _ => kept (by rw [waits]; nofun), [], nofun,
        ?_⟩
    rw [goTo, change_eq at_index, append_nil]
  | @begins index generation previous at_index waits finished current =>
    refine @Does.task _ _ _ index generation { generation with stage := .compiling } ⟨at_index, by rw [waits]; nofun, rfl,
      nofun, fun other is => .inl ⟨rfl, ?_, nofun⟩, fun other is => ⟨(Label.begins.inj is).symm, previous, waits⟩,
      fun done => ?_, fun _ kept _ => kept (by rw [waits]; nofun), [], nofun, ?_⟩
    · rw [← Stage.waiting.inj (waits.symm.trans is)]
      exact finished
    · rcases done with reported | ended
      · exact absurd (waits.symm.trans reported) nofun
      · exact absurd (waits.symm.trans ended) nofun
    · rw [goTo, change_eq at_index, append_nil]
  | @abandons index generation at_index prepares =>
    refine quiet (goes _ [] at_index rfl ⟨?_, ?_⟩ rfl nofun (fun _ => .inr rfl) (fun _ kept _ => kept ?_) nofun)
    · rcases prepares with is | is <;> rw [is] <;> nofun
    · rcases prepares with is | is <;> rw [is] <;> nofun
    · rcases prepares with is | is <;> rw [is] <;> nofun
  | @fails index generation finish at_index prepares =>
    refine goes _ [_] at_index rfl ⟨?_, ?_⟩ rfl nofun (fun _ => .inl rfl) (fun _ kept _ => kept ?_) fun command there => ?_
    · rcases prepares with is | is <;> rw [is] <;> nofun
    · rcases prepares with is | is <;> rw [is] <;> nofun
    · rcases prepares with is | is <;> rw [is] <;> nofun
    · exact ⟨.inl rfl, _, mem_singleton.mp there⟩
  | @compiles index generation at_index prepares =>
    refine quiet (goes _ [] at_index rfl ⟨by rw [prepares]; nofun, by rw [prepares]; nofun⟩ rfl nofun (fun done => ?_)
      (fun _ kept _ => kept (by rw [prepares]; nofun)) nofun)
    rw [Generation.Done, prepares] at done
    simp at done
  | @registers index generation at_index prepared =>
    refine quiet (goes _ [] at_index rfl ⟨by rw [prepared]; nofun, by rw [prepared]; nofun⟩ rfl nofun (fun done => ?_)
      (fun _ _ not_registered => absurd rfl not_registered) nofun)
    rw [Generation.Done, prepared] at done
    simp at done
  | @withdraws index generation at_index registered superseded =>
    exact quiet (goes _ [] at_index rfl ⟨by rw [registered]; nofun, by rw [registered]; nofun⟩ rfl nofun
      (fun _ => .inr rfl) (fun _ _ _ => nofun) nofun)
  | @activates index generation at_index registered current =>
    refine quiet (goes _ [] at_index rfl ⟨by rw [registered]; nofun, by rw [registered]; nofun⟩ rfl nofun (fun done => ?_)
      (fun superseded => absurd (current.symm.trans superseded) nofun) nofun)
    rw [Generation.Done, registered] at done
    simp at done
  | @runs index generation run next at_index active running still =>
    refine quiet (goes _ [] at_index rfl ⟨?_, ?_⟩ rfl ?_ (fun done => done) (fun _ kept not_registered => ?_) nofun)
    · rcases active with is | is <;> rw [is] <;> nofun
    · rcases active with is | is <;> rw [is] <;> nofun
    · rcases active with is | is
      · show ∀ previous, generation.stage ≠ .waiting previous
        rw [is]
        nofun
      · show ∀ previous, generation.stage ≠ .waiting previous
        rw [is]
        nofun
    · rintro other is
      obtain rfl := Option.some.inj is
      exact still (kept not_registered run running)
  | @finishes index generation at_index active =>
    refine quiet (goes _ [] at_index rfl ⟨by rw [active]; nofun, by rw [active]; nofun⟩ rfl nofun (fun done => ?_)
      (fun _ kept _ => kept (by rw [active]; nofun)) nofun)
    rw [Generation.Done, active] at done
    simp at done
  | @releases index generation at_index finishing =>
    refine quiet (goes _ [] at_index rfl ⟨by rw [finishing]; nofun, by rw [finishing]; nofun⟩ rfl nofun (fun done => ?_)
      (fun _ _ _ => nofun) nofun)
    rw [Generation.Done, finishing] at done
    simp at done
  | @reports index generation finish at_index released =>
    refine goes _ [_] at_index rfl ⟨by rw [released]; nofun, by rw [released]; nofun⟩ rfl nofun (fun _ => .inl rfl)
      (fun _ kept _ => kept (by rw [released]; nofun)) fun command there => ?_
    exact ⟨.inl rfl, _, mem_singleton.mp there⟩
  | @ends index generation at_index done =>
    refine quiet (goes _ [] at_index rfl ⟨?_, ?_⟩ rfl nofun (fun _ => .inr rfl) (fun _ kept _ => kept ?_) nofun)
    · rcases done with is | ⟨is, _⟩ <;> rw [is] <;> nofun
    · rcases done with is | ⟨is, _⟩ <;> rw [is] <;> nofun
    · rcases done with is | ⟨is, _⟩ <;> rw [is] <;> nofun

/-! ### What the actor does -/

theorem message_cases (transport : Transport) (message : ClientMessage) :
    transport.message message = transport ∨
      transport.message message = transport.changeCurrent Generation.cancelRun ∨
      (∃ conversationId, (∀ id, transport.conversationId = some id → conversationId = some id) ∧
        transport.message message = ({ transport with conversationId := conversationId } : Transport).startGeneration) ∨
      ∃ conversationId error, message = .runRequest (some conversationId) ∧
        transport.setConversationId conversationId = .error error ∧
        transport.message message = (transport.finishTransport (.failed error)).stop := by
  cases message with
  | runRequest conversationId =>
    cases conversationId with
    | none => exact .inr (.inr (.inl ⟨transport.conversationId, fun _ is => is, rfl⟩))
    | some conversationId =>
      cases set : transport.setConversationId conversationId with
      | error error =>
        refine .inr (.inr (.inr ⟨conversationId, error, rfl, set, ?_⟩))
        simp only [Transport.message, set]
      | ok bound =>
        obtain ⟨bound_id, kept, rfl⟩ := setConversationId_ok set
        refine .inr (.inr (.inl ⟨bound_id, kept, ?_⟩))
        simp only [Transport.message, set]
  | userMessageAction =>
    unfold Transport.message
    cases transport.currentGeneration with
    | none => exact .inl rfl
    | some generation =>
      dsimp only
      split
      · exact .inl rfl
      · exact .inr (.inr (.inl ⟨transport.conversationId, fun _ is => is, rfl⟩))
  | cancelAction => exact .inr (.inl rfl)
  | other => exact .inl rfl

theorem changeCurrent_generations (transport : Transport) (update : Generation → Generation) :
    transport.changeCurrent update = { transport with generations := (transport.changeCurrent update).generations } := by
  unfold changeCurrent
  split <;> rfl

theorem getElem?_changeCurrent (transport : Transport) (update : Generation → Generation) (index : Nat) :
    (transport.changeCurrent update).generations[index]? =
      if transport.current = some index then transport.generations[index]?.map update else transport.generations[index]? := by
  unfold changeCurrent
  cases transport.current with
  | none => rfl
  | some current =>
    simp only [change, getElem?_modify, Option.some.injEq]
    split
    · rfl
    · cases transport.generations[index]? <;> rfl

theorem length_changeCurrent (transport : Transport) (update : Generation → Generation) :
    (transport.changeCurrent update).generations.length = transport.generations.length := by
  unfold changeCurrent
  cases transport.current with
  | none => rfl
  | some current => exact length_modify _ _ _

theorem of_changeCurrent {update : Generation → Generation} {index : Nat} {generation : Generation}
    (there : (transport.changeCurrent update).generations[index]? = some generation) :
    ∃ old, transport.generations[index]? = some old ∧
      generation = if transport.current = some index then update old else old := by
  rw [getElem?_changeCurrent] at there
  split at there
  case isTrue current =>
    obtain ⟨old, at_index, is⟩ := Option.map_eq_some_iff.mp there
    exact ⟨old, at_index, by rw [if_pos current, is]⟩
  case isFalse other => exact ⟨generation, there, by rw [if_neg other]⟩

theorem of_starting
    (generations : after.generations =
      (transport.changeCurrent Generation.supersede).generations ++ [Generation.starting transport.current])
    {index : Nat} {generation : Generation} (there : after.generations[index]? = some generation) :
    (index < transport.generations.length ∧ ∃ old, transport.generations[index]? = some old ∧
        generation = if transport.current = some index then old.supersede else old) ∨
      index = transport.generations.length ∧ generation = .starting transport.current := by
  rw [generations] at there
  rcases Nat.lt_or_ge index transport.generations.length with before | behind
  · rw [getElem?_append_left (by rw [length_changeCurrent]; exact before)] at there
    exact .inl ⟨before, of_changeCurrent there⟩
  · have bound := (List.getElem?_eq_some_iff.mp there).1
    rw [List.length_append, length_changeCurrent, List.length_singleton] at bound
    obtain rfl : index = transport.generations.length := by omega
    rw [List.getElem?_append_right (Nat.le_of_eq (length_changeCurrent transport _)), length_changeCurrent, Nat.sub_self] at there
    exact .inr ⟨rfl, (Option.some.inj there).symm⟩

/-- What a step does to the generations. -/
inductive Grows (transport : Transport) (label : Label) (after : Transport) : Prop
  | same (generations : after.generations = transport.generations)
    (current : after.stopped = false → after.current = transport.current) (stopped : transport.stopped = true → after.stopped =
      true) (label_ne : ∀ index, label ≠ .begins index)
  | cancels (update : Generation → Generation)
    (is : update = Generation.cancelRun ∨ update = Generation.supersede ∧ after.stopped = true)
    (generations : after.generations = (transport.changeCurrent update).generations)
    (current : after.stopped = false → after.current = transport.current)
    (stopped : transport.stopped = true → after.stopped = true) (label_ne : ∀ index, label ≠ .begins index)
  | starts (runs : transport.stopped = false)
    (generations : after.generations =
      (transport.changeCurrent Generation.supersede).generations ++ [.starting transport.current])
    (current : after.current = some transport.generations.length)
    (cleared : after.draining = false ∧ after.pendingFinish = none ∧ after.waitingForAction = false)
    (label_ne : ∀ index, label ≠ .begins index)
  | task {index : Nat} {old new : Generation} (move : TaskMove transport label index old new after)

theorem Does.grows (does : Does transport label after) : Grows transport label after := by
  cases does with
  | client lifecycle conversationId commands from_client label_eq kept after_eq =>
    subst label_eq
    exact .same (by rw [after_eq]) (fun _ => by rw [after_eq]) (fun stopped => by rw [after_eq]; exact stopped) nofun
  | @receives command rest now lifecycle runs next label_eq after_eq =>
    subst label_eq
    have runs_on (stopped : transport.stopped = true) : after.stopped = true :=
      absurd (runs.symm.trans stopped) Bool.false_ne_true
    cases command with
    | append seqno message => exact .same (by rw [after_eq]; rfl) (fun _ => by rw [after_eq]; rfl) runs_on nofun
    | runFinished generation finish =>
      refine .same ?_ (fun _ => ?_) runs_on nofun
      · rw [after_eq]
        simp only [command, runFinished]
        split
        · rfl
        · cases finish <;> rfl
      · rw [after_eq]
        simp only [command, runFinished]
        split
        · rfl
        · cases finish <;> rfl
    | disconnect =>
      have stops : after.stopped = true := by rw [after_eq]; rfl
      refine .cancels Generation.supersede (.inr ⟨rfl, stops⟩) ?_ (fun goes_on => ?_) runs_on nofun
      · rw [after_eq]
        show (changeCurrent _ Generation.supersede).generations = _
        unfold changeCurrent change
        cases transport.current <;> rfl
      · exact absurd (goes_on.symm.trans stops) Bool.false_ne_true
  | @handles message rest runs next label_eq after_eq =>
    subst label_eq
    have runs_on (stopped : transport.stopped = true) : after.stopped = true :=
      absurd (runs.symm.trans stopped) Bool.false_ne_true
    rcases message_cases { transport with ready := rest } message with same | cancels | ⟨conversationId, _, starts⟩ | ⟨_, _, _, _,
      ends⟩
    · exact .same (by rw [after_eq, same]) (fun _ => by rw [after_eq, same]) runs_on nofun
    · refine .cancels Generation.cancelRun (.inl rfl) ?_ (fun _ => ?_) runs_on nofun
      · rw [after_eq, cancels]
        unfold changeCurrent change
        cases transport.current <;> rfl
      · rw [after_eq, cancels, changeCurrent_generations]
    · refine .starts runs ?_ ?_ (by rw [after_eq, starts]; exact ⟨rfl, rfl, rfl⟩) nofun
      · rw [after_eq, starts]
        unfold startGeneration changeCurrent change
        cases transport.current <;> rfl
      · rw [after_eq, starts]
        exact congrArg some (length_changeCurrent _ _)
    · exact .same (by rw [after_eq, ends]; rfl) (fun goes_on => by rw [after_eq, ends] at goes_on; cases goes_on) runs_on nofun
  | drains runs draining label_eq after_eq =>
    subst label_eq
    have same : transport.marked.finishPending.generations = transport.generations := by
      unfold finishPending marked
      repeat' split
      all_goals rfl
    exact .same (by rw [after_eq]; exact same) (fun goes_on => by rw [after_eq] at goes_on; cases goes_on)
      (fun stopped => absurd (runs.symm.trans stopped) Bool.false_ne_true) nofun
  | idles runs waits label_eq after_eq =>
    subst label_eq
    have same : transport.idle.generations = transport.generations ∧
        (transport.idle.stopped = false → transport.idle.current = transport.current) := by
      unfold idle
      split
      · exact ⟨rfl, fun goes_on => absurd goes_on.symm Bool.false_ne_true⟩
      · exact ⟨rfl, fun _ => rfl⟩
    exact .same (by rw [after_eq, same.1]) (by rw [after_eq]; exact same.2)
      (fun stopped => absurd (runs.symm.trans stopped) Bool.false_ne_true) (fun _ is => by cases is)
  | task move => exact .task move

/-! ### Their order -/

/-- The current generation of an actor that runs is the newest; every generation waits for the one before it, and is superseded by
the one behind it or by the end of the actor. -/
structure Ordered (transport : Transport) : Prop where
  newest : transport.stopped = false → ∀ index, transport.current = some index ↔ index + 1 = transport.generations.length
  superseded : ∀ index generation, transport.generations[index]? = some generation → generation.superseded = true →
    index + 1 < transport.generations.length ∨ transport.stopped = true
  earlier : ∀ index generation, transport.generations[index]? = some generation →
    index + 1 < transport.generations.length → generation.superseded = true
  previous : ∀ index generation previous, transport.generations[index]? = some generation →
    generation.stage = .waiting previous → ∀ other, previous = some other ↔ other + 1 = index
  cancelled : ∀ generation ∈ transport.generations, generation.superseded = true → generation.stage ≠ .registered →
    ∀ run, generation.run = some run → run.cancelled = true

theorem runs_before (stopped : transport.stopped = true → after.stopped = true) (goes_on : after.stopped = false) :
    transport.stopped = false :=
  Bool.eq_false_iff.mpr fun stops => absurd (goes_on.symm.trans (stopped stops)) Bool.false_ne_true

theorem Ordered.step (ordered : Ordered transport) (does : Does transport label after) : Ordered after := by
  cases does.grows with
  | same generations current stopped label_ne =>
    refine ⟨fun goes_on => ?_, ?_, ?_, ?_, ?_⟩
    · rw [generations, current goes_on]; exact ordered.newest (runs_before stopped goes_on)
    · rw [generations]
      exact fun index generation there superseded => (ordered.superseded index generation there superseded).imp_right stopped
    · rw [generations]; exact ordered.earlier
    · rw [generations]; exact ordered.previous
    · rw [generations]; exact ordered.cancelled
  | cancels update is generations current stopped label_ne =>
    have superseded_of (old : Generation) (superseded : (update old).superseded = true) :
        old.superseded = true ∨ after.stopped = true := by
      rcases is with rfl | ⟨_, ends⟩
      · exact .inl superseded
      · exact .inr ends
    have stays (old : Generation) (superseded : old.superseded = true) : (update old).superseded = true := by
      rcases is with rfl | ⟨rfl, _⟩
      · exact superseded
      · rfl
    have stage (old : Generation) : (update old).stage = old.stage := by
      rcases is with rfl | ⟨rfl, _⟩ <;> rfl
    have run (old : Generation) : (update old).run = old.run.map RunPort.cancel := by
      rcases is with rfl | ⟨rfl, _⟩ <;> rfl
    refine ⟨fun goes_on => ?_, fun index generation there superseded => ?_, fun index generation there later => ?_,
      fun index generation previous there waits => ?_, fun generation member superseded not_registered port running => ?_⟩
    · rw [generations, current goes_on, length_changeCurrent]; exact ordered.newest (runs_before stopped goes_on)
    · rw [generations] at there ⊢
      rw [length_changeCurrent]
      obtain ⟨old, at_index, rfl⟩ := of_changeCurrent there
      split at superseded
      · rcases superseded_of old superseded with before | ends
        · exact (ordered.superseded index old at_index before).imp_right stopped
        · exact .inr ends
      · exact (ordered.superseded index old at_index superseded).imp_right stopped
    · rw [generations] at there later
      rw [length_changeCurrent] at later
      obtain ⟨old, at_index, rfl⟩ := of_changeCurrent there
      have before := ordered.earlier index old at_index later
      split
      · exact stays old before
      · exact before
    · rw [generations] at there
      obtain ⟨old, at_index, rfl⟩ := of_changeCurrent there
      have same : (if transport.current = some index then update old else old).stage = old.stage := by
        split
        · exact stage old
        · rfl
      exact ordered.previous index old previous at_index (same.symm.trans waits)
    · rw [generations] at member
      obtain ⟨index, there⟩ := getElem?_of_mem member
      obtain ⟨old, at_index, rfl⟩ := of_changeCurrent there
      split at running
      case isTrue =>
        rw [run] at running
        obtain ⟨before, _, rfl⟩ := Option.map_eq_some_iff.mp running
        rw [RunPort.cancel_eq]
      case isFalse other =>
        rw [if_neg other] at superseded not_registered
        exact ordered.cancelled old (mem_of_getElem? at_index) superseded not_registered port running
  | starts runs generations current cleared label_ne =>
    have length : after.generations.length = transport.generations.length + 1 := by
      rw [generations, length_append, length_changeCurrent, length_singleton]
    refine ⟨fun _ index => ?_, fun index generation there superseded => ?_, fun index generation there later => ?_,
      fun index generation previous there waits => ?_, fun generation member superseded not_registered port running => ?_⟩
    · rw [current, length]
      simp only [Option.some.injEq]
      omega
    · rw [length]
      rcases of_starting generations there with ⟨before, _⟩ | ⟨_, rfl⟩
      · exact .inl (by omega)
      · cases superseded
    · rcases of_starting generations there with ⟨before, old, at_index, rfl⟩ | ⟨rfl, _⟩
      · split
        · rfl
        case isFalse other =>
          refine ordered.earlier index old at_index ?_
          have newest := mt (ordered.newest runs index).mpr other
          omega
      · omega
    · rcases of_starting generations there with ⟨before, old, at_index, rfl⟩ | ⟨rfl, rfl⟩
      · have same : (if transport.current = some index then old.supersede else old).stage = old.stage := by
          split <;> rfl
        exact ordered.previous index old previous at_index (same.symm.trans waits)
      · obtain rfl := Stage.waiting.inj waits
        exact ordered.newest runs
    · obtain ⟨index, there⟩ := getElem?_of_mem member
      rcases of_starting generations there with ⟨before, old, at_index, rfl⟩ | ⟨_, rfl⟩
      · split at running
        case isTrue =>
          obtain ⟨run, _, rfl⟩ := Option.map_eq_some_iff.mp running
          rw [RunPort.cancel_eq]
        case isFalse other =>
          rw [if_neg other] at superseded not_registered
          exact ordered.cancelled old (mem_of_getElem? at_index) superseded not_registered port running
      · cases running
  | @task index old new move =>
    obtain ⟨reports, _, rfl⟩ := move.after_eq
    refine ⟨?_, fun place generation there superseded => ?_, fun place generation there later => ?_,
      fun place generation previous there waits => ?_, fun generation member superseded not_registered port running => ?_⟩
    · simp only [length_set]
      exact ordered.newest
    · simp only [length_set]
      rcases of_set there with ⟨rfl, rfl⟩ | ⟨_, before⟩
      · exact ordered.superseded place old move.at_index (move.superseded.symm.trans superseded)
      · exact ordered.superseded place generation before superseded
    · simp only [length_set] at later
      rcases of_set there with ⟨rfl, rfl⟩ | ⟨_, before⟩
      · exact move.superseded.trans (ordered.earlier place old move.at_index later)
      · exact ordered.earlier place generation before later
    · rcases of_set there with ⟨rfl, rfl⟩ | ⟨_, before⟩
      · exact absurd waits (move.waits previous)
      · exact ordered.previous place generation previous before waits
    · obtain ⟨place, there⟩ := getElem?_of_mem member
      rcases of_set there with ⟨rfl, rfl⟩ | ⟨_, before⟩
      · have was := move.superseded.symm.trans superseded
        exact move.cancelled was (ordered.cancelled old (mem_of_getElem? move.at_index) was) not_registered port running
      · exact ordered.cancelled generation (mem_of_getElem? before) superseded not_registered port running

/-! ### Generations apart -/

/-- All generations before one have ended. -/
def EndedBefore (transport : Transport) (index : Nat) : Prop :=
  ∀ other < index, ∀ generation, transport.generations[other]? = some generation → generation.stage = .ended

/-- A generation that a later one supersedes while it waits gives up when the one that it waits for has ended. -/
def Patient (before : Transport) (label : Label) (_ : Transport) : Prop :=
  ∀ index, label = .givesUp index → index + 1 < before.generations.length →
    ∀ generation previous, before.generations[index]? = some generation → generation.stage = .waiting previous →
      before.previousFinished previous = true

/-- All before a generation that is behind its wait have ended, unless it is the newest and gave up as the actor
stopped. -/
def Apart (transport : Transport) : Prop :=
  ∀ index generation, transport.generations[index]? = some generation →
    (∀ previous, generation.stage ≠ .waiting previous) →
      transport.EndedBefore index ∨
        generation.stage = .ended ∧ index + 1 = transport.generations.length ∧ transport.stopped = true

theorem previousFinished_some {previous : Nat} (finished : transport.previousFinished (some previous) = true) :
    ∃ generation, transport.generations[previous]? = some generation ∧ generation.stage = .ended := by
  have finished : transport.generations[previous]?.any (fun generation => generation.stage = .ended) = true := finished
  cases at_previous : transport.generations[previous]? with
  | none =>
    rw [at_previous] at finished
    cases finished
  | some generation =>
    rw [at_previous] at finished
    exact ⟨generation, rfl, of_decide_eq_true finished⟩

theorem Apart.endedBefore (apart : Apart transport) (ordered : Ordered transport) {index : Nat} {generation : Generation}
    {previous : Option Nat} (at_index : transport.generations[index]? = some generation)
    (waits : generation.stage = .waiting previous) (finished : transport.previousFinished previous = true) :
    transport.EndedBefore index := by
  have bound := (List.getElem?_eq_some_iff.mp at_index).1
  have is_previous := ordered.previous index generation previous at_index waits
  intro other before old there
  obtain ⟨direct, rfl⟩ : ∃ direct, index = direct + 1 := ⟨index - 1, by omega⟩
  obtain rfl := (is_previous direct).mpr rfl
  obtain ⟨predecessor, at_direct, ended⟩ := previousFinished_some finished
  rcases Nat.lt_or_ge other direct with earlier | same
  · rcases apart direct predecessor at_direct (by rw [ended]; nofun) with all | ⟨_, newest, _⟩
    · exact all other earlier old there
    · omega
  · obtain rfl : other = direct := by omega
    rw [at_direct] at there
    exact Option.some.inj there ▸ ended

theorem Apart.step (apart : Apart transport) (ordered : Ordered transport) (does : Does transport label after)
    (patient : Patient transport label after) : Apart after := by
  intro place generation there behind
  cases does.grows with
  | same generations current stopped label_ne =>
    rw [generations] at there
    unfold EndedBefore
    rw [generations]
    exact (apart place generation there behind).imp_right fun ⟨ended, newest, stops⟩ => ⟨ended, newest, stopped stops⟩
  | cancels update is generations current stopped label_ne =>
    have stage (old : Generation) (index : Nat) :
        (if transport.current = some index then update old else old).stage = old.stage := by
      split
      · rcases is with rfl | ⟨rfl, _⟩ <;> rfl
      · rfl
    rw [generations] at there
    obtain ⟨old, at_index, rfl⟩ := of_changeCurrent there
    rw [stage] at behind
    rw [stage, generations, length_changeCurrent]
    refine (apart place old at_index behind).imp (fun all other earlier next at_other => ?_)
      fun ⟨ended, newest, stops⟩ => ⟨ended, newest, stopped stops⟩
    rw [generations] at at_other
    obtain ⟨before, at_before, rfl⟩ := of_changeCurrent at_other
    exact (stage before other).trans (all other earlier before at_before)
  | starts runs generations current cleared label_ne =>
    have stage (old : Generation) (index : Nat) :
        (if transport.current = some index then old.supersede else old).stage = old.stage := by split <;> rfl
    rcases of_starting generations there with ⟨bound, old, at_index, rfl⟩ | ⟨_, rfl⟩
    · rw [stage] at behind
      rcases apart place old at_index behind with all | ⟨_, _, stops⟩
      · refine .inl fun other earlier next at_other => ?_
        rcases of_starting generations at_other with ⟨_, before, at_before, rfl⟩ | ⟨rfl, _⟩
        · exact (stage before other).trans (all other earlier before at_before)
        · omega
      · rw [runs] at stops
        cases stops
    · exact absurd rfl (behind _)
  | @task index old new move =>
    obtain ⟨reports, _, rfl⟩ := move.after_eq
    have keeps {other : Nat} (le : other ≤ index) (all : transport.EndedBefore other) :
        EndedBefore { transport with
          generations := transport.generations.set index new
          queue := transport.queue ++ reports } other := by
      intro before earlier next at_before
      rcases of_set at_before with ⟨rfl, _⟩ | ⟨_, same⟩
      · omega
      · exact all before earlier next same
    simp only [length_set]
    rcases of_set there with ⟨rfl, rfl⟩ | ⟨_, at_place⟩
    · by_cases waits : ∃ previous, old.stage = .waiting previous
      · obtain ⟨previous, waits⟩ := waits
        rcases move.begun previous waits with ⟨_, finished, _⟩ | ⟨gives_up, superseded, ended⟩
        · exact .inl (keeps (Nat.le_refl place) (apart.endedBefore ordered move.at_index waits finished))
        · rcases Nat.lt_or_ge (place + 1) transport.generations.length with later | newest
          · have finished := patient place gives_up later old previous move.at_index waits
            exact .inl (keeps (Nat.le_refl place) (apart.endedBefore ordered move.at_index waits finished))
          · have bound := (List.getElem?_eq_some_iff.mp move.at_index).1
            rcases ordered.superseded place old move.at_index superseded with later | stops
            · omega
            · exact .inr ⟨ended, by omega, stops⟩
      · rcases apart place old move.at_index (fun previous is => waits ⟨previous, is⟩) with all | ⟨ended, _⟩
        · exact .inl (keeps (Nat.le_refl place) all)
        · exact absurd ended move.alive
    · rcases apart place generation at_place behind with all | newest
      · rcases Nat.lt_or_ge index place with below | above
        · exact absurd (all index below old move.at_index) move.alive
        · exact .inl (keeps above all)
      · exact .inr newest

theorem Ordered.initial (requestId : String) : Ordered (.new requestId) where
  newest _ index := ⟨fun is => absurd is (Option.some_ne_none index).symm, fun is => absurd is index.succ_ne_zero⟩
  superseded _ generation there := absurd there (Option.some_ne_none generation).symm
  earlier _ generation there := absurd there (Option.some_ne_none generation).symm
  previous _ generation _ there := absurd there (Option.some_ne_none generation).symm
  cancelled := forall_mem_nil _

theorem apart_of_run {requestId : String} {start last : Transport} {labels : List Label}
    (begins : (transports requestId).initial start)
    (run : ((transports requestId).confine Patient).Run start labels last) : Ordered last ∧ Apart last := by
  subst begins
  refine @System.run_invariant _ _ _ (fun transport => Ordered transport ∧ Apart transport)
    (fun _ _ _ kept step => ?_) _ _ _ ⟨Ordered.initial requestId, fun _ generation there => absurd there
      (Option.some_ne_none generation).symm⟩ run
  exact ⟨kept.1.step step.1.does, kept.2.step kept.1 step.1.does step.2⟩

/-- **The generations of a transport never overlap.** In every run in which a generation that a later one supersedes
gives up its wait only when the one before it has ended: a generation begins when all before it have ended, and two
generations are never behind their wait at a time. -/
theorem generations_apart {requestId : String} {start last : Transport} {labels : List Label}
    (begins : (transports requestId).initial start)
    (run : ((transports requestId).confine Patient).Run start labels last) :
    (∀ index after, (transports requestId).step last (.begins index) after → last.EndedBefore index) ∧
      ∀ (first second : Nat) (one two : Generation), last.generations[first]? = some one → last.generations[second]? = some two →
        one.Works → two.Works → first = second := by
  obtain ⟨ordered, apart⟩ := apart_of_run begins run
  refine ⟨fun index after step => ?_, fun first second one two at_first at_second works_one works_two => ?_⟩
  · cases step with
    | begins at_index waits finished current => exact apart.endedBefore ordered at_index waits finished
  · -- of two that work, the later one knows that the earlier one has ended
    have earlier_ended {early late : Nat} {old new : Generation} (at_early : last.generations[early]? = some old)
        (at_late : last.generations[late]? = some new) (works_old : old.Works) (works_new : new.Works) :
        ¬early < late := by
      intro before
      rcases apart late new at_late works_new.2 with all | ⟨ended, _⟩
      · exact works_old.1 (all early before old at_early)
      · exact works_new.1 ended
    have not_before := earlier_ended at_first at_second works_one works_two
    have not_behind := earlier_ended at_second at_first works_two works_one
    omega

/-! ### Three requests -/

/-- An idle transport whose client has sent a command, which the actor has taken. -/
def taken (transport : Transport) (command : TransportCommand) : Transport :=
  ({ ({ transport with queue := [command] } : Transport).marked with queue := [] } : Transport).command 0 command

/-- An idle transport whose client has sent a message, which the actor has gone through. -/
def arrived (transport : Transport) (seqno : Int) (message : ClientMessage) : Transport :=
  ({ transport.taken (.append seqno message) with ready := [] } : Transport).message message

theorem takes {transport : Transport} {requestId : String} {seqno : Int} {message : ClientMessage}
    (runs : transport.stopped = false) (idle : transport.ready = []) (empty : transport.queue = []) :
    (transports requestId).Run transport [.client, .receives] (transport.taken (.append seqno message)) := by
  have sends : transport.Step .client { transport with queue := [.append seqno message] } := by
    have step : transport.Step .client { transport with queue := transport.queue ++ [.append seqno message] } :=
      Step.sends _ nofun
    rw [empty] at step
    exact step
  have receives : ({ transport with queue := [.append seqno message] } : Transport).Step .receives
      (transport.taken (.append seqno message)) := Step.receives 0 runs idle rfl
  exact System.Run.cons sends (System.Run.single receives)

theorem arrives {transport : Transport} {requestId : String} {seqno : Int} {message : ClientMessage}
    (runs : transport.stopped = false) (idle : transport.ready = []) (empty : transport.queue = [])
    (ready : (transport.taken (.append seqno message)).ready = [message])
    (goes_on : (transport.taken (.append seqno message)).stopped = false) :
    (transports requestId).Run transport [.client, .receives, .handles message] (transport.arrived seqno message) :=
  (takes runs idle empty).append (System.Run.single (Step.handles goes_on ready))

/-- The first request has come in. -/
def oneRequest : Transport := (Transport.new "request").arrived 0 (.runRequest (some "conversation"))

/-- Its generation is active. -/
def oneActive : Transport :=
  ((oneRequest.goTo 0 .compiling).goTo 0 .compiled).change 0
      (fun generation => { generation with stage := .registered, run := some .new })
    |>.goTo 0 .active

theorem oneRequest_run : (transports "request").Run (.new "request")
    [.client, .receives, .handles (.runRequest (some "conversation"))] oneRequest := arrives rfl rfl rfl rfl rfl

theorem oneActive_run : (transports "request").Run oneRequest [.begins 0, .goesOn 0, .goesOn 0, .goesOn 0] oneActive :=
  System.Run.cons (@Step.begins _ 0 _ _ rfl rfl rfl rfl) (System.Run.cons (@Step.compiles _ 0 _ rfl rfl)
    (System.Run.cons (@Step.registers _ 0 _ rfl rfl) (System.Run.single (@Step.activates _ 0 _ rfl rfl rfl))))

/-- Two more requests have come in. -/
def threeRequests : Transport :=
  (oneActive.arrived 1 (.runRequest (some "conversation"))).arrived 2 (.runRequest (some "conversation"))

theorem threeRequests_run : (transports "request").Run oneActive
    [.client, .receives, .handles (.runRequest (some "conversation")),
      .client, .receives, .handles (.runRequest (some "conversation"))] threeRequests :=
  (arrives rfl rfl rfl rfl rfl).append (arrives rfl rfl rfl rfl rfl)

/-- The first generation has ended before the second gives up. -/
theorem generations_apart_patient : ∃ labels last,
    ((transports "request").confine Patient).Run (.new "request") labels last ∧
      last.generations.map Generation.stage = [.ended, .ended, .waiting (some 1)] ∧
      ∀ index after, (transports "request").step last (.begins index) after → last.EndedBefore index := by
  have ended : (transports "request").Run threeRequests [.goesOn 0, .goesOn 0, .goesOn 0]
      (((threeRequests.goTo 0 .finishing).change 0 fun generation => { generation with stage := .released, run := none }).goTo
        0 .ended) :=
    System.Run.cons (@Step.finishes _ 0 _ rfl rfl) (System.Run.cons (@Step.releases _ 0 _ rfl rfl)
      (System.Run.single (@Step.ends _ 0 _ rfl (.inr ⟨rfl, rfl⟩))))
  have patient := System.Run.confine (((oneRequest_run.append oneActive_run).append threeRequests_run).append ended)
    fun before label after there _ => by
      show Patient before label after
      rintro index rfl
      simp at there
  have given_up := patient.snoc ⟨@Step.givesUp _ 1 _ _ rfl rfl rfl, fun index is _ generation previous there waits => by
    obtain rfl := Label.givesUp.inj is
    obtain rfl := Option.some.inj there
    obtain rfl := Stage.waiting.inj waits
    rfl⟩
  exact ⟨_, _, given_up, by decide +kernel, (generations_apart rfl given_up).1⟩

/-- The second generation gives up while the first is active, and the third begins. -/
theorem generations_overlap : ∃ labels last after, (transports "request").Run (.new "request") labels last ∧
    (transports "request").step last (.begins 2) after ∧
      after.generations.map Generation.stage = [.active, .ended, .compiling] := by
  have given_up := ((oneRequest_run.append oneActive_run).append threeRequests_run).append
    (System.Run.single (@Step.givesUp _ 1 _ _ rfl rfl rfl))
  exact ⟨_, _, _, given_up, @Step.begins _ 2 _ _ rfl rfl rfl rfl, by decide +kernel⟩

end Transport

end Byok.Cursor.Conversation
