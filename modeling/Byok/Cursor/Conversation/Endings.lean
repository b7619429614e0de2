/-
**How the actor of a transport ends.**

* `Settling` — what draining, waiting and the reports in the queue say about the current generation.
* `Ended` — the ends of stream that the actor has emitted, and the generations that it leaves behind.
* `Bound` — the actor accepts the id of every request, since `bidi::append` has bound it before.
* `EndsCleanly`, `ends_cleanly` — one end of stream, of the newest generation, with no generation left to run.
-/

import Byok.Cursor.Conversation.Generations

namespace Byok.Cursor.Conversation.Transport

open Library List

variable {transport after : Transport} {label : Label}

/-! ### Generations that are done -/

theorem done_of_stage {old new : Generation} (stage : new.stage = old.stage) (done : old.Done) : new.Done := by
  unfold Generation.Done
  rw [stage]
  exact done

/-- A generation of the transport that is done. -/
def DoneAt (transport : Transport) (index : Nat) : Prop :=
  ∃ generation, transport.generations[index]? = some generation ∧ generation.Done

theorem Grows.doneAt (grows : Grows transport label after) {index : Nat} (done : transport.DoneAt index) :
    after.DoneAt index := by
  obtain ⟨old, at_index, done⟩ := done
  cases grows with
  | same generations => exact ⟨old, by rw [generations, at_index], done⟩
  | cancels update is generations =>
    refine ⟨if transport.current = some index then update old else old, ?_, ?_⟩
    · rw [generations, getElem?_changeCurrent, at_index]
      split <;> rfl
    · split
      · rcases is with rfl | ⟨rfl, _⟩ <;> exact done_of_stage rfl done
      · exact done
  | starts runs generations =>
    have bound := (List.getElem?_eq_some_iff.mp at_index).1
    refine ⟨if transport.current = some index then old.supersede else old, ?_, ?_⟩
    · rw [generations, List.getElem?_append_left (by rw [length_changeCurrent]; exact bound), getElem?_changeCurrent,
        at_index]
      split <;> rfl
    · split
      · exact done_of_stage rfl done
      · exact done
  | @task place before new move =>
    obtain ⟨reports, _, rfl⟩ := move.after_eq
    by_cases same : place = index
    · subst same
      have bound := (List.getElem?_eq_some_iff.mp at_index).1
      obtain rfl := Option.some.inj (move.at_index.symm.trans at_index)
      exact ⟨new, List.getElem?_set_self bound, move.done done⟩
    · exact ⟨old, (List.getElem?_set_ne same).trans at_index, done⟩

/-! ### The beginning of a generation, and the ends of the actor -/

theorem startGeneration_eq (transport : Transport) :
    transport.startGeneration = { transport with
      lifecycle := transport.lifecycle.reopen
      draining := false
      pendingFinish := none
      waitingForAction := false
      generations := (transport.changeCurrent Generation.supersede).generations ++ [.starting transport.current]
      current := some transport.generations.length } := by
  unfold startGeneration
  dsimp only
  rw [length_changeCurrent, changeCurrent_generations]

theorem disconnect_eq (transport : Transport) :
    ∃ finish, transport.disconnect = ((transport.changeCurrent Generation.supersede).finishTransport finish).stop :=
  ⟨_, rfl⟩

theorem drained_eq {index : Nat} {finish : TransportFinish} (draining : transport.draining = true)
    (pending : transport.pendingFinish = some (index, finish)) (current : transport.current = some index) :
    ({ transport.marked.finishPending with pendingFinish := none } : Transport).stop =
      { transport with
        lifecycle := transport.lifecycle.markDraining.close
        current := none
        pendingFinish := none
        sent := transport.sent ++ [finish]
        stopped := true } := by
  have marked : transport.marked = { transport with lifecycle := transport.lifecycle.markDraining } := if_pos draining
  rw [marked]
  unfold finishPending
  rw [pending]
  dsimp only
  rw [if_pos current]
  rfl

/-! ### Draining and waiting -/

/-- An actor that runs drains and waits only behind the report of the current generation, and a generation whose report is in the
queue is done. -/
structure Settling (transport : Transport) : Prop where
  draining : transport.stopped = false → transport.draining = true → ∃ index finish,
    transport.pendingFinish = some (index, finish) ∧ transport.current = some index ∧ transport.DoneAt index
  waiting : transport.stopped = false → transport.waitingForAction = true → ∃ index, transport.current = some index ∧
    transport.DoneAt index
  queued : ∀ index finish, .runFinished index finish ∈ transport.queue → transport.DoneAt index

theorem Settling.frame (settling : Settling transport) (grows : Grows transport label after)
    (draining : after.draining = transport.draining) (pending : after.pendingFinish = transport.pendingFinish)
    (waiting : after.waitingForAction = transport.waitingForAction)
    (current : after.stopped = false → after.current = transport.current)
    (stopped : after.stopped = false → transport.stopped = false)
    (queued : ∀ index finish, .runFinished index finish ∈ after.queue →
      .runFinished index finish ∈ transport.queue ∨ after.DoneAt index) : Settling after where
  draining runs drains := by
    obtain ⟨index, finish, is, at_current, done⟩ := settling.draining (stopped runs) (draining.symm.trans drains)
    exact ⟨index, finish, pending.trans is, (current runs).trans at_current, grows.doneAt done⟩
  waiting runs waits := by
    obtain ⟨index, at_current, done⟩ := settling.waiting (stopped runs) (waiting.symm.trans waits)
    exact ⟨index, (current runs).trans at_current, grows.doneAt done⟩
  queued index finish there := by
    rcases queued index finish there with before | done
    · exact grows.doneAt (settling.queued index finish before)
    · exact done

theorem Settling.step (settling : Settling transport) (does : Does transport label after) : Settling after := by
  have grows := does.grows
  cases does with
  | client lifecycle conversationId commands from_client label_eq kept after_eq =>
    subst after_eq
    refine settling.frame grows rfl rfl rfl (fun _ => rfl) id fun index finish there => .inl ?_
    exact (mem_append.mp there).resolve_right (from_client index finish)
  | @receives command rest now lifecycle runs next label_eq after_eq =>
    have rest_of {index : Nat} {finish : RunFinish} (there : .runFinished index finish ∈ rest) :
        .runFinished index finish ∈ transport.queue := by
      rw [next]
      exact mem_cons_of_mem _ there
    cases command with
    | append seqno message =>
      subst after_eq
      exact settling.frame grows rfl rfl rfl (fun _ => rfl) id fun index finish there => .inl (rest_of there)
    | runFinished generation finish =>
      have done := grows.doneAt (settling.queued generation finish (by rw [next]; exact mem_cons_self))
      by_cases current : transport.current = some generation
      · cases finish with
        | turnCompleted =>
          have is : after = { transport with
              lifecycle := lifecycle
              queue := rest
              pendingFinish := none
              draining := false
              waitingForAction := true } := by
            rw [after_eq]
            exact if_neg (not_not.mpr current)
          subst is
          exact ⟨fun _ => nofun, fun _ _ => ⟨generation, current, done⟩,
            fun index finish there => grows.doneAt (settling.queued index finish (rest_of there))⟩
        | transport finish =>
          have is : after = { transport with
              lifecycle := lifecycle.beginClose
              queue := rest
              pendingFinish := some (generation, finish)
              draining := true
              waitingForAction := false } := by
            rw [after_eq]
            exact if_neg (not_not.mpr current)
          subst is
          exact ⟨fun _ _ => ⟨generation, finish, rfl, current, done⟩, fun _ => nofun,
            fun index finish there => grows.doneAt (settling.queued index finish (rest_of there))⟩
      · have is : after = { transport with lifecycle := lifecycle, queue := rest } := by
          rw [after_eq]
          exact if_pos current
        subst is
        exact settling.frame grows rfl rfl rfl (fun _ => rfl) id fun index finish there => .inl (rest_of there)
    | disconnect =>
      obtain ⟨finish, is⟩ := disconnect_eq { transport with lifecycle := lifecycle, queue := rest }
      have after_eq := after_eq.trans is
      rw [changeCurrent_generations] at after_eq
      subst after_eq
      exact settling.frame grows rfl rfl rfl nofun nofun fun index finish there => .inl (rest_of there)
  | @handles message rest runs next label_eq after_eq =>
    rcases message_cases { transport with ready := rest } message with same | cancels | ⟨conversationId, _, starts⟩ | ⟨_, _, _, _,
      ends⟩
    · rw [same] at after_eq
      subst after_eq
      exact settling.frame grows rfl rfl rfl (fun _ => rfl) id fun index finish there => .inl there
    · rw [cancels, changeCurrent_generations] at after_eq
      subst after_eq
      exact settling.frame grows rfl rfl rfl (fun _ => rfl) id fun index finish there => .inl there
    · rw [starts, startGeneration_eq] at after_eq
      subst after_eq
      exact ⟨fun _ => nofun, fun _ => nofun, fun index finish there => grows.doneAt (settling.queued index finish there)⟩
    · rw [ends] at after_eq
      subst after_eq
      exact settling.frame grows rfl rfl rfl nofun nofun fun index finish there => .inl there
  | drains runs draining label_eq after_eq =>
    obtain ⟨index, finish, pending, current, done⟩ := settling.draining runs draining
    rw [drained_eq draining pending current] at after_eq
    subst after_eq
    exact ⟨nofun, nofun, settling.queued⟩
  | idles runs waits label_eq after_eq =>
    obtain ⟨index, current, done⟩ := settling.waiting runs waits
    have is : after = { transport with
        lifecycle := transport.lifecycle.beginClose
        pendingFinish := some (index, .success)
        draining := true
        waitingForAction := false } := by
      rw [after_eq, idle, current]
    subst is
    exact ⟨fun _ _ => ⟨index, .success, rfl, current, done⟩, fun _ => nofun, settling.queued⟩
  | @task index old new move =>
    obtain ⟨reports, reported, rfl⟩ := move.after_eq
    refine settling.frame grows rfl rfl rfl (fun _ => rfl) id fun place finish there => ?_
    rcases mem_append.mp there with before | report
    · exact .inl before
    · obtain ⟨done, end_, is⟩ := reported _ report
      obtain ⟨rfl, rfl⟩ := TransportCommand.runFinished.inj is
      have bound := (List.getElem?_eq_some_iff.mp move.at_index).1
      exact .inr ⟨new, List.getElem?_set_self bound, done⟩

/-! ### Appends -/

/-- The id of a request is the one that is bound. -/
def Accepts (transport : Transport) (message : ClientMessage) : Prop :=
  ∀ conversationId, message = .runRequest (some conversationId) →
    conversationId ≠ "" ∧ transport.conversationId = some conversationId

theorem accepts_iff {conversationId : String} :
    conversationId ≠ "" ∧ transport.conversationId = some conversationId ↔
      transport.setConversationId conversationId = .ok transport := by
  unfold setConversationId
  constructor
  · rintro ⟨named, bound⟩
    rw [if_neg named, bound]
    exact if_pos rfl
  · intro set
    split at set
    · cases set
    case isFalse named =>
      refine ⟨named, ?_⟩
      split at set
      case h_1 unbound =>
        have same := congrArg Transport.conversationId (Except.ok.inj set)
        exact same.symm
      case h_2 bound there =>
        split at set
        case isTrue same => exact same ▸ there
        case isFalse => cases set

/-- `bidi::append` is what sends the messages of a client. It has bound the id of a request to the handle. -/
def FromAppend (before : Transport) (label : Label) (after : Transport) : Prop :=
  label = .client → ∀ seqno conversationId, .append seqno (.runRequest (some conversationId)) ∈ after.queue →
    .append seqno (.runRequest (some conversationId)) ∈ before.queue ∨
      before.setConversationId conversationId = .ok before

/-- The ids of all requests on their way to the actor are accepted. -/
structure Bound (transport : Transport) : Prop where
  queued : ∀ seqno message, .append seqno message ∈ transport.queue → transport.Accepts message
  held : OrderedInbox.HoldsAll transport.Accepts transport.inbox.pending
  ready : ∀ message ∈ transport.ready, transport.Accepts message

theorem Bound.initial (requestId : String) : Bound (.new requestId) where
  queued := nofun
  held seqno message there := by
    have there : (∅ : Std.TreeMap Int ClientMessage)[seqno]? = some message := there
    simp at there
  ready := nofun

theorem Accepts.mono {message : ClientMessage} (accepts : transport.Accepts message)
    (kept : ∀ id, transport.conversationId = some id → after.conversationId = some id) : after.Accepts message := by
  intro conversationId is
  obtain ⟨named, bound⟩ := accepts conversationId is
  exact ⟨named, kept conversationId bound⟩

theorem Bound.frame (bound : Bound transport)
    (kept : ∀ id, transport.conversationId = some id → after.conversationId = some id)
    (queue : ∀ seqno message, .append seqno message ∈ after.queue → .append seqno message ∈ transport.queue)
    (inbox : after.inbox = transport.inbox) (ready : ∀ message ∈ after.ready, message ∈ transport.ready) :
    Bound after where
  queued seqno message there := (bound.queued seqno message (queue seqno message there)).mono kept
  held seqno message there := (bound.held seqno message (inbox ▸ there)).mono kept
  ready message there := (bound.ready message (ready message there)).mono kept

theorem Bound.step (bound : Bound transport) (does : Does transport label after)
    (from_append : FromAppend transport label after) : Bound after := by
  cases does with
  | client lifecycle conversationId commands from_client label_eq kept after_eq =>
    subst after_eq
    refine ⟨fun seqno message there => ?_, fun seqno message there => (bound.held seqno message there).mono kept,
      fun message there => (bound.ready message there).mono kept⟩
    rintro conversationId rfl
    rcases from_append label_eq seqno conversationId there with before | set
    · exact (bound.queued seqno _ before).mono kept conversationId rfl
    · obtain ⟨named, is⟩ := accepts_iff.mpr set
      exact ⟨named, kept _ is⟩
  | @receives command rest now lifecycle runs next label_eq after_eq =>
    have rest_of {seqno : Int} {message : ClientMessage} (there : .append seqno message ∈ rest) :
        .append seqno message ∈ transport.queue := by
      rw [next]
      exact mem_cons_of_mem _ there
    cases command with
    | append seqno message =>
      have asked : transport.Accepts message := bound.queued seqno message (by rw [next]; exact mem_cons_self)
      have pushed := @OrderedInbox.pushAt_all _ _ transport.inbox now seqno message bound.held asked
      subst after_eq
      refine ⟨fun seqno message there => bound.queued seqno message (rest_of there), pushed.2, fun message there => ?_⟩
      obtain ⟨entry, member, rfl⟩ := mem_map.mp there
      exact pushed.1 entry member
    | runFinished generation finish =>
      have same : after.conversationId = transport.conversationId ∧ after.queue = rest ∧ after.inbox = transport.inbox ∧
          after.ready = transport.ready := by
        rw [after_eq]
        simp only [command, runFinished]
        split
        · exact ⟨rfl, rfl, rfl, rfl⟩
        · cases finish <;> exact ⟨rfl, rfl, rfl, rfl⟩
      obtain ⟨id, queue, inbox, ready⟩ := same
      exact bound.frame (fun _ is => id.trans is) (fun seqno message there => rest_of (queue ▸ there)) inbox
        fun message there => ready ▸ there
    | disconnect =>
      obtain ⟨finish, is⟩ := disconnect_eq { transport with lifecycle := lifecycle, queue := rest }
      have after_eq := after_eq.trans is
      rw [changeCurrent_generations] at after_eq
      subst after_eq
      exact bound.frame (fun _ is => is) (fun seqno message there => rest_of there) rfl fun _ there => there
  | @handles message rest runs next label_eq after_eq =>
    have rest_of (message : ClientMessage) (there : message ∈ rest) : message ∈ transport.ready := by
      rw [next]
      exact mem_cons_of_mem _ there
    rcases message_cases { transport with ready := rest } message with same | cancels | ⟨conversationId, kept, starts⟩ | ⟨_, _, _,
      _, ends⟩
    · rw [same] at after_eq
      subst after_eq
      exact bound.frame (fun _ is => is) (fun _ _ there => there) rfl rest_of
    · rw [cancels, changeCurrent_generations] at after_eq
      subst after_eq
      exact bound.frame (fun _ is => is) (fun _ _ there => there) rfl rest_of
    · rw [starts, startGeneration_eq] at after_eq
      subst after_eq
      exact bound.frame kept (fun _ _ there => there) rfl rest_of
    · rw [ends] at after_eq
      subst after_eq
      exact bound.frame (fun _ is => is) (fun _ _ there => there) rfl rest_of
  | drains runs draining label_eq after_eq =>
    have same : after.conversationId = transport.conversationId ∧ after.queue = transport.queue ∧
        after.inbox = transport.inbox ∧ after.ready = transport.ready := by
      rw [after_eq]
      unfold finishPending marked
      repeat' split
      all_goals exact ⟨rfl, rfl, rfl, rfl⟩
    obtain ⟨id, queue, inbox, ready⟩ := same
    exact bound.frame (fun _ is => id.trans is) (fun _ _ there => queue ▸ there) inbox fun _ there => ready ▸ there
  | idles runs waits label_eq after_eq =>
    have same : after.conversationId = transport.conversationId ∧ after.queue = transport.queue ∧
        after.inbox = transport.inbox ∧ after.ready = transport.ready := by
      rw [after_eq]
      unfold idle
      split <;> exact ⟨rfl, rfl, rfl, rfl⟩
    obtain ⟨id, queue, inbox, ready⟩ := same
    exact bound.frame (fun _ is => id.trans is) (fun _ _ there => queue ▸ there) inbox fun _ there => ready ▸ there
  | @task index old new move =>
    obtain ⟨reports, reported, rfl⟩ := move.after_eq
    refine bound.frame (fun _ is => is) (fun seqno message there => ?_) rfl fun _ there => there
    refine (mem_append.mp there).resolve_right fun report => ?_
    obtain ⟨_, finish, is⟩ := reported _ report
    cases is

/-! ### The end -/

/-- A generation that is done, or superseded. -/
def LeftAt (transport : Transport) (index : Nat) : Prop :=
  ∃ generation, transport.generations[index]? = some generation ∧ (generation.Done ∨ generation.superseded = true)

theorem DoneAt.leftAt {index : Nat} (done : transport.DoneAt index) : transport.LeftAt index := by
  obtain ⟨generation, at_index, done⟩ := done
  exact ⟨generation, at_index, .inl done⟩

theorem Grows.leftAt (grows : Grows transport label after) {index : Nat} (left : transport.LeftAt index) :
    after.LeftAt index := by
  obtain ⟨old, at_index, done | superseded⟩ := left
  · exact (grows.doneAt ⟨old, at_index, done⟩).leftAt
  have bound := (List.getElem?_eq_some_iff.mp at_index).1
  cases grows with
  | same generations => exact ⟨old, by rw [generations, at_index], .inr superseded⟩
  | cancels update is generations =>
    refine ⟨if transport.current = some index then update old else old, ?_, .inr ?_⟩
    · rw [generations, getElem?_changeCurrent, at_index]
      split <;> rfl
    · split
      · rcases is with rfl | ⟨rfl, _⟩
        · exact superseded
        · rfl
      · exact superseded
  | starts runs generations =>
    refine ⟨if transport.current = some index then old.supersede else old, ?_, .inr ?_⟩
    · rw [generations, getElem?_append_left (by rw [length_changeCurrent]; exact bound), getElem?_changeCurrent,
        at_index]
      split <;> rfl
    · split
      · rfl
      · exact superseded
  | @task place before new move =>
    obtain ⟨reports, _, rfl⟩ := move.after_eq
    by_cases same : place = index
    · subst same
      obtain rfl := Option.some.inj (move.at_index.symm.trans at_index)
      exact ⟨new, getElem?_set_self bound, .inr (move.superseded.trans superseded)⟩
    · exact ⟨old, (getElem?_set_ne same).trans at_index, .inr superseded⟩

/-- The actor goes on, or ends: it emits one end of stream, and leaves the current generation. -/
inductive Stops (transport : Transport) (label : Label) (after : Transport) : Prop
  | goes_on (stopped : after.stopped = transport.stopped) (sent : after.sent = transport.sent)
    (length : transport.stopped = true → after.generations.length = transport.generations.length)
  | ends (finish : TransportFinish) (runs : transport.stopped = false) (stopped : after.stopped = true)
    (sent : after.sent = transport.sent ++ [finish])
    (length : after.generations.length = transport.generations.length)
    (left : ∀ index, transport.current = some index → after.LeftAt index)
    (pending : label = .drains ∨ label = .idles →
      ∃ index, transport.pendingFinish = some (index, finish) ∧ transport.current = some index)

theorem Does.stops (does : Does transport label after) (ordered : Ordered transport) (settling : Settling transport)
    (bound : Bound transport) : Stops transport label after := by
  have grows := does.grows
  cases does with
  | client lifecycle conversationId commands from_client label_eq kept after_eq =>
    subst after_eq
    exact .goes_on rfl rfl fun _ => rfl
  | @receives command rest now lifecycle runs next label_eq after_eq =>
    have never (stopped : transport.stopped = true) : after.generations.length = transport.generations.length :=
      absurd (runs.symm.trans stopped) nofun
    cases command with
    | append seqno message =>
      subst after_eq
      exact .goes_on rfl rfl never
    | runFinished generation finish =>
      have same : after.stopped = transport.stopped ∧ after.sent = transport.sent := by
        rw [after_eq]
        simp only [command, runFinished]
        split
        · exact ⟨rfl, rfl⟩
        · cases finish <;> exact ⟨rfl, rfl⟩
      exact .goes_on same.1 same.2 never
    | disconnect =>
      obtain ⟨finish, is⟩ := disconnect_eq { transport with lifecycle := lifecycle, queue := rest }
      have after_eq := after_eq.trans is
      rw [changeCurrent_generations] at after_eq
      subst after_eq
      refine .ends finish runs rfl rfl (length_changeCurrent _ _) (fun index current => ?_) (by rw [label_eq]; simp)
      have bound : index < transport.generations.length := by
        have newest := (ordered.newest runs index).mp current
        omega
      refine ⟨transport.generations[index].supersede, ?_, .inr rfl⟩
      show (changeCurrent _ Generation.supersede).generations[index]? = _
      rw [getElem?_changeCurrent]
      refine (if_pos current).trans ?_
      rw [getElem?_eq_getElem bound]
      rfl
  | @handles message rest runs next label_eq after_eq =>
    have never (stopped : transport.stopped = true) : after.generations.length = transport.generations.length :=
      absurd (runs.symm.trans stopped) nofun
    rcases message_cases { transport with ready := rest } message with same | cancels | ⟨_, _, starts⟩ | ⟨id, error, is, set,
      ends⟩
    · rw [same] at after_eq
      subst after_eq
      exact .goes_on rfl rfl never
    · rw [cancels, changeCurrent_generations] at after_eq
      subst after_eq
      exact .goes_on rfl rfl never
    · rw [starts, startGeneration_eq] at after_eq
      subst after_eq
      exact .goes_on rfl rfl never
    · -- the id of a request is bound before the request is sent
      have asked : transport.Accepts message := bound.ready message (by rw [next]; exact mem_cons_self)
      have accepted : ({ transport with ready := rest } : Transport).setConversationId id = .ok _ :=
        accepts_iff.mp (asked id is)
      rw [accepted] at set
      cases set
  | drains runs draining label_eq after_eq =>
    obtain ⟨index, finish, pending, current, done⟩ := settling.draining runs draining
    rw [drained_eq draining pending current] at after_eq
    subst after_eq
    refine .ends finish runs rfl rfl rfl (fun place is => ?_) fun _ => ⟨index, pending, current⟩
    obtain rfl := Option.some.inj (current.symm.trans is)
    exact done.leftAt
  | idles runs waits label_eq after_eq =>
    obtain ⟨index, current, _⟩ := settling.waiting runs waits
    rw [idle, current] at after_eq
    subst after_eq
    exact .goes_on rfl rfl fun _ => rfl
  | task move =>
    obtain ⟨reports, _, rfl⟩ := move.after_eq
    exact .goes_on rfl rfl fun _ => length_set

/-- What has been emitted and left by an actor. -/
structure Ended (transport : Transport) : Prop where
  runs : transport.stopped = false → transport.sent = []
  once : transport.stopped = true → ∃ finish, transport.sent = [finish]
  left : transport.stopped = true → ∀ index < transport.generations.length, transport.LeftAt index

theorem Ended.step (ended : Ended transport) (ordered : Ordered transport) (settling : Settling transport)
    (bound : Bound transport) (does : Does transport label after) : Ended after := by
  cases does.stops ordered settling bound with
  | goes_on stopped sent length =>
    refine ⟨fun runs => ?_, fun stops => ?_, fun stops index bound => ?_⟩
    · exact sent.trans (ended.runs (stopped.symm.trans runs))
    · obtain ⟨finish, is⟩ := ended.once (stopped.symm.trans stops)
      exact ⟨finish, sent.trans is⟩
    · have before := stopped.symm.trans stops
      rw [length before] at bound
      exact does.grows.leftAt (ended.left before index bound)
  | ends finish runs stopped sent length left pending =>
    refine ⟨fun goes_on => absurd (stopped.symm.trans goes_on) nofun, fun _ => ⟨finish, ?_⟩, fun _ index bound => ?_⟩
    · rw [sent, ended.runs runs, nil_append]
    · rw [length] at bound
      by_cases current : transport.current = some index
      · exact left index current
      · -- it is not the newest, so another generation has superseded it
        have newest := mt (ordered.newest runs index).mpr current
        have superseded := ordered.earlier index _ (getElem?_eq_getElem bound) (by omega)
        exact does.grows.leftAt ⟨_, getElem?_eq_getElem bound, .inr superseded⟩

/-- The actor ends cleanly: it emits one end of stream as it stops, behind the report of its newest generation; the
report of a superseded generation changes nothing; a generation that starts clears what the one before it has left; and
a generation that is left behind is done, or superseded with its run cancelled. A superseded task that has just put its
run in place withdraws it. -/
structure EndsCleanly (last : Transport) : Prop where
  runs : last.stopped = false → last.sent = []
  once : last.stopped = true → ∃ finish, last.sent = [finish]
  newest : ∀ label after, last.Step label after → label = .drains ∨ label = .idles → after.sent ≠ last.sent →
    ∃ index finish, last.pendingFinish = some (index, finish) ∧ index + 1 = last.generations.length ∧ after.sent = [finish]
  stale : ∀ now index generation finish, last.stopped = false → last.generations[index]? = some generation →
    generation.superseded = true → last.command now (.runFinished index finish) = last
  starts : ∀ label after, last.Step label after → last.generations.length < after.generations.length →
    after.draining = false ∧ after.pendingFinish = none ∧ after.waitingForAction = false
  settles : last.stopped = false → last.draining = true ∨ last.waitingForAction = true →
    ∃ index, index + 1 = last.generations.length ∧ last.DoneAt index
  left : last.stopped = true → ∀ generation ∈ last.generations, generation.Done ∨ generation.superseded = true ∧
    (generation.stage ≠ .registered → ∀ run, generation.run = some run → run.cancelled = true)

theorem endsCleanly_of (ordered : Ordered transport) (settling : Settling transport) (bound : Bound transport)
    (ended : Ended transport) : EndsCleanly transport where
  runs := ended.runs
  once := ended.once
  newest label after step is emits := by
    cases step.does.stops ordered settling bound with
    | goes_on stopped sent length => exact absurd sent emits
    | ends finish runs stopped sent length left pending =>
      obtain ⟨index, pending, current⟩ := pending is
      refine ⟨index, finish, pending, (ordered.newest runs index).mp current, ?_⟩
      rw [sent, ended.runs runs, nil_append]
  stale now index generation finish runs at_index superseded := by
    have later := (ordered.superseded index generation at_index superseded).resolve_right (by rw [runs]; nofun)
    have other : transport.current ≠ some index := fun current => by
      have newest := (ordered.newest runs index).mp current
      omega
    exact if_pos other
  starts label after step more := by
    cases step.does.grows with
    | same generations => exact absurd more (by rw [generations]; omega)
    | cancels update is generations => exact absurd more (by rw [generations, length_changeCurrent]; omega)
    | starts runs generations current cleared => exact cleared
    | task move =>
      obtain ⟨reports, _, rfl⟩ := move.after_eq
      exact absurd more (by simp)
  settles runs settles := by
    rcases settles with drains | waits
    · obtain ⟨index, finish, _, current, done⟩ := settling.draining runs drains
      exact ⟨index, (ordered.newest runs index).mp current, done⟩
    · obtain ⟨index, current, done⟩ := settling.waiting runs waits
      exact ⟨index, (ordered.newest runs index).mp current, done⟩
  left stopped generation member := by
    obtain ⟨index, at_index⟩ := List.getElem?_of_mem member
    have bound := (List.getElem?_eq_some_iff.mp at_index).1
    obtain ⟨same, at_same, done | superseded⟩ := ended.left stopped index bound
    · obtain rfl := Option.some.inj (at_same.symm.trans at_index)
      exact .inl done
    · obtain rfl := Option.some.inj (at_same.symm.trans at_index)
      exact .inr ⟨superseded, ordered.cancelled same member superseded⟩

/-- **The actor of a transport ends cleanly** in every run whose appends come from `bidi::append`. -/
theorem ends_cleanly {requestId : String} {start last : Transport} {labels : List Label}
    (begins : (transports requestId).initial start)
    (run : ((transports requestId).confine FromAppend).Run start labels last) : EndsCleanly last := by
  subst begins
  have kept : Ordered last ∧ Settling last ∧ Bound last ∧ Ended last := by
    refine @System.run_invariant _ _ _
      (fun transport => Ordered transport ∧ Settling transport ∧ Bound transport ∧ Ended transport)
      (fun before label after kept step => ?_) _ _ _ ⟨Ordered.initial requestId, ?_, Bound.initial requestId, ?_⟩ run
    · obtain ⟨ordered, settling, bound, ended⟩ := kept
      have does := step.1.does
      exact ⟨ordered.step does, settling.step does, bound.step does step.2, ended.step ordered settling bound does⟩
    · exact ⟨fun _ => nofun, fun _ => nofun, nofun⟩
    · exact ⟨fun _ => rfl, nofun, nofun⟩
  exact endsCleanly_of kept.1 kept.2.1 kept.2.2.1 kept.2.2.2

/-- A request of a run. -/
def sampleRequest : TransportCommand := .append 0 (.runRequest (some "conversation"))

/-- Its id is bound. -/
def sampleBound : Transport := { Transport.new "request" with conversationId := some "conversation" }

/-- The first generation has reported its end, and the actor has drained. -/
theorem ends_cleanly_drained : ∃ labels last, ((transports "request").confine FromAppend).Run (.new "request") labels last ∧
    last.stopped = true ∧ last.sent = [.success] ∧ EndsCleanly last := by
  have reported : (transports "request").Run oneActive [.goesOn 0, .goesOn 0, .goesOn 0]
      (((oneActive.goTo 0 .finishing).change 0 fun generation => { generation with stage := .released, run := none }).report
        0 (.transport .success)) :=
    System.Run.cons (@Step.finishes _ 0 _ rfl rfl) (System.Run.cons (@Step.releases _ 0 _ rfl rfl)
      (System.Run.single (@Step.reports _ 0 _ _ rfl rfl)))
  have drained := reported.append (System.Run.cons (@Step.receives _ _ _ 0 rfl rfl rfl)
    (System.Run.single (@Step.drains _ rfl rfl rfl rfl rfl)))
  -- `bidi::append` binds the id and sends the request
  have binds : (transports "request").step (.new "request") .client sampleBound := @Step.binds _ "conversation" _ rfl
  have sends : (transports "request").step sampleBound .client { sampleBound with queue := [sampleRequest] } :=
    Step.sends sampleRequest nofun
  have receives : (transports "request").step { sampleBound with queue := [sampleRequest] } .receives
    (sampleBound.taken sampleRequest) :=
    Step.receives 0 rfl rfl rfl
  have handles : (transports "request").step (sampleBound.taken sampleRequest) (.handles (.runRequest (some "conversation")))
    oneRequest :=
    Step.handles rfl rfl
  have asked : ((transports "request").confine FromAppend).Run (.new "request")
      [.client, .client, .receives, .handles (.runRequest (some "conversation"))] oneRequest := by
    refine .cons ⟨binds, fun _ _ _ there => nomatch there⟩ (.cons ⟨sends, fun _ seqno id there => .inr ?_⟩
      (.cons ⟨receives, nofun⟩ (.single ⟨handles, nofun⟩)))
    cases mem_singleton.mp there
    rfl
  have ended := asked.append ((oneActive_run.append drained).confine fun before label after there _ => by
    rintro rfl
    simp at there)
  exact ⟨_, _, ended, rfl, rfl, ends_cleanly rfl ended⟩

end Byok.Cursor.Conversation.Transport
