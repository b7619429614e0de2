/-
**Messages between runs.** What becomes of a message that `deliver` could not hand to a run.

* `Conserved` — a queued message is in the pending list of its conversation, taken by a run of it,
  or has been on its chain.
* `never_lost` — in every run of the registry in which no task gives up what it has taken.
* `taken_then_lost` — a task that is superseded behind `take_pending` takes its messages along.
-/

import Byok.Cursor.Conversation.RegistryParts

namespace Byok.Cursor.Conversation

open Library List

/-! ### Where messages are -/

/-- A task that has taken messages and is on its way to commit them. -/
def ConversationRun.Holds (run : ConversationRun) : Prop :=
  run.stage = .taken ∨ run.stage = .active ∨ run.stage = .claimed

/-- The messages that a task has taken, with their conversation. -/
def ConversationRun.places (run : ConversationRun) : List (ConversationId × Waiting) :=
  run.taken.map fun waiting => (run.conversation, waiting)

namespace Hub

variable {hub after : Hub}

/-- The messages that wait or are taken. -/
def placed (hub : Hub) : List (ConversationId × Waiting) :=
  hub.registry.waiting ++ hub.runs.flatMap ConversationRun.places

/-- All the messages have been on the chain of the conversation. -/
def Stored (hub : Hub) (conversation : ConversationId) (messages : List CanonicalMessage) : Prop :=
  ∀ message ∈ messages, ∃ stored, (conversation, stored) ∈ hub.stored ∧ stored.payload =
    message.payload

/-- A call that has queued its message. -/
def Queued (hub : Hub) (conversation : ConversationId) (compiled : CompiledMessages) (entry : Nat) :
    Prop :=
  ∃ call result, hub.calls[entry]? = some call ∧ call.conversation = conversation ∧ call.compiled =
    compiled ∧
    call.state = .queued result entry

/-- The batch of a call is still to be appended. -/
def Open (hub : Hub) (entry : Nat) : Prop :=
  ∃ call, hub.calls[entry]? = some call ∧ ((∃ index, call.state = .submitting index) ∨
    ∃ index batch run, call.state = .awaiting index batch ∧ hub.runs[index]? = some run ∧
      batch ∈ run.atHand)

/-- Every queued message is in one place until it has been on the chain, and no message of a call is
inserted twice. -/
structure Conserved (hub : Hub) : Prop where
  tidy : ∀ run ∈ hub.runs, run.Tidy
  holds : ∀ run ∈ hub.runs, run.taken ≠ [] → run.Holds
  eventIds : hub.registry.EventIds
  apart : (hub.placed.map fun place => place.2.call).Nodup
  placed : ∀ place ∈ hub.placed, hub.Queued place.1 place.2.compiled place.2.call
  tickets : ∀ (index : Nat) (call : Call) (place : Nat) (batch : MessageBatch), hub.calls[index]? =
    some call →
    call.state = .awaiting place batch → ∃ run, hub.runs[place]? = some run ∧ batch.ticket <
      run.port.enqueued.length
  chains : ∀ conversation, ∀ message ∈ hub.chains conversation, (conversation, message) ∈ hub.stored
  records : ∀ record ∈ hub.committed, (∃ call, hub.calls[record.1]? = some call) ∧
    ¬hub.Open record.1
  once : (hub.committed.map fun record => (record.1, record.2.2)).Nodup
  queued : ∀ (index : Nat) (call : Call) (result : CommandResult) (entry : Nat), hub.calls[index]? =
    some call →
    call.state = .queued result entry → ∃ compiled, compiled.eventId = call.compiled.eventId ∧
      hub.Queued call.conversation compiled entry ∧
        ((call.conversation, ⟨compiled, entry⟩) ∈ hub.placed ∨
        hub.Stored call.conversation compiled.messages)
  returned : ∀ (index : Nat) (call : Call) (result : CommandResult), hub.calls[index]? = some call →
    call.state = .returned result → result ≠ .runClosing ∧ result ≠ .runEnded

/-! ### Steps that leave messages where they are -/

/-- Runs go on, and stay tidy. -/
structure RunsGoOn (runs after : List ConversationRun) : Prop where
  forward : ∀ (index : Nat) (run : ConversationRun), runs[index]? = some run → ∃ next,
    after[index]? = some next ∧ run.GoesOn next
  tidy : (∀ run ∈ runs, run.Tidy) → ∀ run ∈ after, run.Tidy

/-- Runs keep what they have taken. -/
structure RunsKeep (runs after : List ConversationRun) : Prop where
  taken : after.flatMap ConversationRun.places = runs.flatMap ConversationRun.places
  holds : (∀ run ∈ runs, run.taken ≠ [] → run.Holds) → ∀ run ∈ after, run.taken ≠ [] → run.Holds

theorem RunsGoOn.refl (runs : List ConversationRun) : RunsGoOn runs runs :=
  ⟨fun _ run at_index => ⟨run, at_index, .refl run⟩, id⟩

theorem RunsGoOn.set {runs : List ConversationRun} {index : Nat} {run next : ConversationRun}
    (at_index : runs[index]? = some run) (goes_on : run.GoesOn next) :
    RunsGoOn runs (runs.set index next) where
  forward place other at_place := by
    by_cases same : index = place
    · subst same
      obtain rfl := Option.some.inj (at_index.symm.trans at_place)
      exact ⟨next, List.getElem?_set_self (List.getElem?_eq_some_iff.mp at_index).1, goes_on⟩
    · exact ⟨other, (List.getElem?_set_ne same).trans at_place, .refl other⟩
  tidy all other member := by
    rcases List.mem_or_eq_of_mem_set member with before | rfl
    · exact all other before
    · exact goes_on.tidy (all run (List.mem_of_getElem? at_index))

theorem RunsKeep.set {runs : List ConversationRun} {index : Nat} {run next : ConversationRun}
    (at_index : runs[index]? = some run) (goes_on : run.GoesOn next)
    (taken : next.taken = run.taken)
    (holds : run.Holds → run.taken ≠ [] → next.Holds) : RunsKeep runs (runs.set index next) where
  taken := by
    obtain ⟨before, behind, is, sets⟩ := exists_set_split at_index
    have same : next.places = run.places := by
      unfold ConversationRun.places
      rw [taken, goes_on.conversation]
    rw [sets, is, flatMap_append, flatMap_append, flatMap_cons, flatMap_cons, same]
  holds all other member some_taken := by
    rcases mem_or_eq_of_mem_set member with before | rfl
    · exact all other before some_taken
    · rw [taken] at some_taken
      exact holds (all run (mem_of_getElem? at_index) some_taken) some_taken

theorem RunsKeep.refl (runs : List ConversationRun) : RunsKeep runs runs := ⟨rfl, id⟩

theorem RunsGoOn.append (runs : List ConversationRun) {new : ConversationRun} (tidy : new.Tidy) :
    RunsGoOn runs (runs ++ [new]) where
  forward index run at_index := by
    refine ⟨run, ?_, .refl run⟩
    rw [List.getElem?_append_left (List.getElem?_eq_some_iff.mp at_index).1]
    exact at_index
  tidy all run member := by
    rcases List.mem_append.mp member with before | is
    · exact all run before
    · rw [List.mem_singleton.mp is]
      exact tidy

theorem RunsKeep.append (runs : List ConversationRun) {new : ConversationRun}
    (empty : new.taken = []) :
    RunsKeep runs (runs ++ [new]) where
  taken := by
    have places : new.places = [] := by
      unfold ConversationRun.places
      rw [empty]
      rfl
    rw [flatMap_append, flatMap_cons, places]
    exact append_nil _
  holds all run member some_taken := by
    rcases mem_append.mp member with before | is
    · exact all run before some_taken
    · rw [mem_singleton.mp is] at some_taken
      exact absurd empty some_taken

theorem RunsGoOn.modify {runs : List ConversationRun} (index : Nat)
    {update : ConversationRun → ConversationRun}
    (goes_on : ∀ run : ConversationRun, run.GoesOn (update run)) :
    RunsGoOn runs (runs.modify index update) := by
  rw [modify_eq_set_getElem?]
  cases at_index : runs[index]? with
  | none => exact .refl runs
  | some run => exact .set at_index (goes_on run)

theorem RunsKeep.modify {runs : List ConversationRun} (index : Nat)
    {update : ConversationRun → ConversationRun}
    (goes_on : ∀ run : ConversationRun, run.GoesOn (update run)) (taken : ∀ run : ConversationRun,
      (update run).taken = run.taken)
    (holds : ∀ run : ConversationRun, run.Holds → (update run).Holds) :
    RunsKeep runs (runs.modify index update) := by
  rw [modify_eq_set_getElem?]
  cases at_index : runs[index]? with
  | none => exact .refl runs
  | some run => exact .set at_index (goes_on run) (taken run) fun is _ => holds run is

theorem RunsGoOn.trans {first second third : List ConversationRun} (one : RunsGoOn first second)
    (two : RunsGoOn second third) : RunsGoOn first third where
  forward index run at_index := by
    obtain ⟨middle, at_middle, first_goes⟩ := one.forward index run at_index
    obtain ⟨last, at_last, second_goes⟩ := two.forward index middle at_middle
    exact ⟨last, at_last, first_goes.trans second_goes⟩
  tidy all := two.tidy (one.tidy all)

theorem RunsKeep.trans {first second third : List ConversationRun} (one : RunsKeep first second)
    (two : RunsKeep second third) : RunsKeep first third :=
  ⟨two.taken.trans one.taken, fun all => two.holds (one.holds all)⟩

/-- Where a call goes on: it has not queued its message, and its batch is submitted once. -/
def Moves (call next : Call) : Prop :=
  next = call ∨ (∀ result entry, call.state ≠ .queued result entry) ∧
    ((∃ run, call.state = .submitting run) ∨
    (∀ run, next.state ≠ .submitting run) ∧ ∀ run batch, next.state ≠ .awaiting run batch)

/-- Calls go on, and none queues its message. -/
structure CallsGoOn (hub : Hub) (runs : List ConversationRun) (calls : List Call) : Prop where
  forward : ∀ (index : Nat) (call : Call), hub.calls[index]? = some call → ∃ next, calls[index]? =
    some next ∧ Moves call next
  backward : ∀ (index : Nat) (next : Call), calls[index]? = some next → hub.calls[index]? =
    some next ∨
    (∀ result entry, next.state ≠ .queued result entry) ∧
      (∀ (place : Nat) (batch : MessageBatch), next.state = .awaiting place batch →
        ∃ run, runs[place]? = some run ∧ batch.ticket < run.port.enqueued.length) ∧
      ∀ result, next.state = .returned result → result ≠ .runClosing ∧ result ≠ .runEnded

theorem CallsGoOn.refl (hub : Hub) (runs : List ConversationRun) : CallsGoOn hub runs hub.calls :=
  ⟨fun _ call at_index => ⟨call, at_index, .inl rfl⟩, fun _ _ at_index => .inl at_index⟩

theorem CallsGoOn.set {runs : List ConversationRun} {index : Nat} {call next : Call}
    (at_index : hub.calls[index]? = some call)
    (moves : Moves call next) (open_ : ∀ result entry, next.state ≠ .queued result entry)
    (tickets : ∀ (place : Nat) (batch : MessageBatch), next.state = .awaiting place batch →
      ∃ run, runs[place]? = some run ∧ batch.ticket < run.port.enqueued.length)
    (returned : ∀ result, next.state = .returned result → result ≠ .runClosing ∧
      result ≠ .runEnded) :
    CallsGoOn hub runs (hub.calls.set index next) where
  forward place other at_place := by
    by_cases same : index = place
    · subst same
      obtain rfl := Option.some.inj (at_index.symm.trans at_place)
      exact ⟨next, List.getElem?_set_self (List.getElem?_eq_some_iff.mp at_index).1, moves⟩
    · exact ⟨other, (List.getElem?_set_ne same).trans at_place, .inl rfl⟩
  backward place other at_place := by
    rcases of_set at_place with ⟨_, rfl⟩ | ⟨_, before⟩
    · exact .inr ⟨open_, tickets, returned⟩
    · exact .inl before

theorem CallsGoOn.append {runs : List ConversationRun} {new : Call}
    (open_ : ∀ result entry, new.state ≠ .queued result entry)
    (unsent : ∀ place batch, new.state ≠ .awaiting place batch)
    (returned : ∀ result, new.state = .returned result → result ≠ .runClosing ∧
      result ≠ .runEnded) :
    CallsGoOn hub runs (hub.calls ++ [new]) where
  forward index call at_index := by
    refine ⟨call, ?_, .inl rfl⟩
    rw [List.getElem?_append_left (List.getElem?_eq_some_iff.mp at_index).1]
    exact at_index
  backward index next at_index := by
    rcases Nat.lt_or_ge index hub.calls.length with before | behind
    · rw [List.getElem?_append_left before] at at_index
      exact .inl at_index
    · rw [getElem?_append_right behind] at at_index
      obtain rfl := mem_singleton.mp (mem_of_getElem? at_index)
      exact .inr ⟨open_, fun place batch is => absurd is (unsent place batch), returned⟩

theorem Queued.stays (calls : ∀ (index : Nat) (call : Call), hub.calls[index]? = some call →
      ∃ next, after.calls[index]? = some next ∧ Moves call next)
    {conversation : ConversationId} {compiled : CompiledMessages} {entry : Nat}
    (queued : hub.Queued conversation compiled entry) :
    after.Queued conversation compiled entry := by
  obtain ⟨call, result, at_entry, is_conversation, is_compiled, state⟩ := queued
  obtain ⟨next, at_next, rfl | ⟨not_queued, _⟩⟩ := calls entry call at_entry
  · exact ⟨next, result, at_next, is_conversation, is_compiled, state⟩
  · exact absurd state (not_queued result entry)

theorem Stored.mono {conversation : ConversationId} {messages : List CanonicalMessage}
    (stored : hub.Stored conversation messages) (grows : hub.stored ⊆ after.stored) :
    after.Stored conversation messages :=
  fun message member => (stored message member).imp fun _ there => ⟨grows there.1, there.2⟩

theorem Conserved.of (conserved : Conserved hub) (goes_on : RunsGoOn hub.runs after.runs)
    (calls : ∀ (index : Nat) (call : Call), hub.calls[index]? = some call →
      ∃ next, after.calls[index]? = some next ∧ Moves call next)
    (holds : ∀ run ∈ after.runs, run.taken ≠ [] → run.Holds) (eventIds : after.registry.EventIds)
    (apart : (after.placed.map fun place => place.2.call).Nodup)
    (placed : ∀ place ∈ after.placed, place ∈ hub.placed ∨
      after.Queued place.1 place.2.compiled place.2.call)
    (stored : hub.stored ⊆ after.stored)
    (chains : ∀ conversation, ∀ message ∈ after.chains conversation,
      message ∈ hub.chains conversation ∨ (conversation, message) ∈ after.stored)
    (records : ∀ record ∈ after.committed, record ∈ hub.committed ∨
      (∃ call, after.calls[record.1]? = some call) ∧ ¬after.Open record.1)
    (once : (after.committed.map fun record => (record.1, record.2.2)).Nodup)
    (keeps : ∀ place ∈ hub.placed, place ∈ after.placed ∨
      after.Stored place.1 place.2.compiled.messages)
    (backward : ∀ (index : Nat) (next : Call), after.calls[index]? = some next → hub.calls[index]? =
      some next ∨
      (∀ result entry, next.state = .queued result entry → ∃ compiled, compiled.eventId =
        next.compiled.eventId ∧
        after.Queued next.conversation compiled entry ∧ (next.conversation, ⟨compiled, entry⟩)
          ∈ after.placed) ∧
      (∀ (place : Nat) (batch : MessageBatch), next.state = .awaiting place batch →
        ∃ run, after.runs[place]? = some run ∧ batch.ticket < run.port.enqueued.length) ∧
      ∀ result, next.state = .returned result → result ≠ .runClosing ∧ result ≠ .runEnded) :
        Conserved after := by
  refine ⟨goes_on.tidy conserved.tidy, holds, eventIds, apart, fun place member => ?_,
    fun index call place batch at_index awaiting => ?_, fun conversation message member => ?_,
      fun record member => ?_, once,
    fun index call result entry at_index state => ?_, fun index call result at_index state => ?_⟩
  · rcases placed place member with before | queued
    · exact (conserved.placed place before).stays calls
    · exact queued
  · rcases backward index call at_index with before | ⟨_, tickets, _⟩
    · obtain ⟨run, at_run, old⟩ := conserved.tickets index call place batch before awaiting
      obtain ⟨next, at_next, goes⟩ := goes_on.forward place run at_run
      exact ⟨next, at_next, Nat.lt_of_lt_of_le old goes.enqueued⟩
    · exact tickets place batch awaiting
  · rcases chains conversation message member with before | new
    · exact stored (conserved.chains conversation message before)
    · exact new
  · rcases records record member with before | new
    · -- a batch that is closed is not opened again
      obtain ⟨⟨call, at_call⟩, closed⟩ := conserved.records record before
      obtain ⟨next, at_next, moves⟩ := calls record.1 call at_call
      refine ⟨⟨next, at_next⟩, fun ⟨same, at_same, state⟩ => ?_⟩
      obtain rfl := Option.some.inj (at_next.symm.trans at_same)
      rcases moves with rfl | ⟨_, ⟨run, submitting⟩ | ⟨unsubmitted, unsent⟩⟩
      · rcases state with ⟨index, submitting⟩ | ⟨index, batch, run, awaiting, at_run, there⟩
        · exact closed ⟨next, at_call, .inl ⟨index, submitting⟩⟩
        · obtain ⟨old, at_old, ticket⟩ :=
          conserved.tickets record.1 next index batch at_call awaiting
          obtain ⟨later, at_later, goes⟩ := goes_on.forward index old at_old
          obtain rfl := Option.some.inj (at_run.symm.trans at_later)
          refine goes.closed batch ticket (fun again => ?_) there
          exact closed ⟨next, at_call, .inr ⟨index, batch, old, awaiting, at_old, again⟩⟩
      · exact closed ⟨call, at_call, .inl ⟨run, submitting⟩⟩
      · rcases state with ⟨index, submitting⟩ | ⟨index, batch, _, awaiting, _⟩
        · exact unsubmitted index submitting
        · exact unsent index batch awaiting
    · exact new
  · rcases backward index call at_index with before | ⟨queued, _⟩
    · obtain ⟨compiled, event, queued, there | safe⟩ :=
      conserved.queued index call result entry before state
      · exact ⟨compiled, event, queued.stays calls, keeps _ there⟩
      · exact ⟨compiled, event, queued.stays calls, .inr (safe.mono stored)⟩
    · obtain ⟨compiled, event, queued, there⟩ := queued result entry state
      exact ⟨compiled, event, queued, .inl there⟩
  · rcases backward index call at_index with before | ⟨_, _, returned⟩
    · exact conserved.returned index call result before state
    · exact returned result state

theorem Conserved.frame (conserved : Conserved hub)
    (pending : after.registry.pending = hub.registry.pending)
    (goes_on : RunsGoOn hub.runs after.runs) (keeps : RunsKeep hub.runs after.runs)
    (stored : hub.stored ⊆ after.stored)
    (chains : ∀ conversation, ∀ message ∈ after.chains conversation,
      message ∈ hub.chains conversation ∨ (conversation, message) ∈ after.stored)
    (committed : after.committed = hub.committed) (calls : CallsGoOn hub after.runs after.calls) :
    Conserved after := by
  have placed : after.placed = hub.placed := by
    unfold Hub.placed ConversationRegistry.waiting
    rw [pending, keeps.taken]
  refine conserved.of goes_on calls.forward (keeps.holds conserved.holds)
    ?_ (placed ▸ conserved.apart)
    (fun place member => .inl (placed ▸ member)) stored chains (fun record member => .inl
      (committed ▸ member))
    (committed ▸ conserved.once) (fun place member => .inl (placed ▸ member))
    fun index next at_index => (calls.backward index next at_index).imp_right fun ⟨not_queued,
      tickets, returned⟩ =>
      ⟨fun result entry state => absurd state (not_queued result entry), tickets, returned⟩
  unfold ConversationRegistry.EventIds
  rw [pending]
  exact conserved.eventIds

theorem Conserved.run (conserved : Conserved hub) {registry : ConversationRegistry}
    (pending : registry.pending = hub.registry.pending) {index : Nat} {run next : ConversationRun}
    (at_run : hub.runs[index]? = some run) (goes_on : run.GoesOn next)
    (taken : next.taken = run.taken)
    (holds : run.Holds → run.taken ≠ [] → next.Holds) :
    Conserved { hub.run index next with registry := registry } :=
  conserved.frame pending (.set at_run goes_on) (.set at_run goes_on taken holds)
    (List.Subset.refl _)
    (fun _ _ => .inl) rfl (.refl hub _)

theorem Conserved.moveTo (conserved : Conserved hub) (conversation : ConversationId)
    (chain : List CanonicalMessage) :
    Conserved (hub.moveTo conversation chain) := by
  refine conserved.frame rfl (.refl _) (.refl _) (subset_append_left _ _)
    (fun place message there => ?_) rfl (.refl hub _)
  have there : message ∈ Function.update hub.chains conversation chain place := there
  by_cases same : place = conversation
  · subst same
    rw [Function.update_self] at there
    exact .inr (mem_append_right _ (mem_map.mpr ⟨message, there, rfl⟩))
  · rw [Function.update_of_ne same] at there
    exact .inl there

/-! ### Steps that move messages -/

theorem exists_others {runs : List ConversationRun} {index : Nat} {run : ConversationRun}
    (at_run : runs[index]? = some run) :
    ∃ others, (runs.flatMap ConversationRun.places).Perm (run.places ++ others) ∧
      ∀ next, ((runs.set index next).flatMap ConversationRun.places).Perm (next.places ++
        others) := by
  obtain ⟨before, behind, is, sets⟩ := exists_set_split at_run
  refine ⟨before.flatMap ConversationRun.places ++ behind.flatMap ConversationRun.places, ?_,
    fun next => ?_⟩
  · rw [is, flatMap_append, flatMap_cons]
    exact perm_append_comm_assoc _ _ _
  · rw [sets, flatMap_append, flatMap_cons]
    exact perm_append_comm_assoc _ _ _

theorem Conserved.take (conserved : Conserved hub) {index : Nat} {run : ConversationRun}
    (at_run : hub.runs[index]? = some run) (stage : run.stage = .compiling) :
    Conserved (hub.take index run) := by
  have nothing : run.places = [] := by
    have empty : run.taken = [] := by
      by_contra some_taken
      rcases conserved.holds run (mem_of_getElem? at_run) some_taken with is | is | is <;>
        rw [stage] at is <;> cases is
    unfold ConversationRun.places
    rw [empty]
    rfl
  obtain ⟨waiting, eventIds⟩ := hub.registry.takePending_spec run.conversation
  have goes_on : run.GoesOn
      { run with stage := .taken, taken := (hub.registry.takePending run.conversation).1 } :=
    .same rfl rfl rfl rfl
  have placed : (hub.take index run).placed.Perm hub.placed := by
    obtain ⟨others, old, new⟩ := exists_others at_run
    rw [nothing, nil_append] at old
    calc (hub.take index run).placed.Perm ((hub.registry.takePending run.conversation).2.waiting ++
          (((hub.registry.takePending run.conversation).1.map fun waiting =>
            (run.conversation, waiting)) ++ others)) :=
        (new _).append_left _
      List.Perm _ (((hub.registry.takePending run.conversation).1.map fun waiting =>
        (run.conversation, waiting)) ++
          ((hub.registry.takePending run.conversation).2.waiting ++ others)) :=
            perm_append_comm_assoc _ _ _
      List.Perm _ (hub.registry.waiting ++ others) := by
        rw [← append_assoc]
        exact waiting.symm.append_right _
      List.Perm _ hub.placed := old.symm.append_left _
  refine conserved.of (.set at_run goes_on) (CallsGoOn.refl hub hub.runs).forward ?_
    (eventIds conserved.eventIds)
    ((placed.map _).nodup_iff.mpr conserved.apart) (fun place member => .inl (placed.subset member))
    (List.Subset.refl _)
    (fun _ _ => .inl) (fun _ => .inl) conserved.once
    (fun place member => .inl (placed.symm.subset member))
    fun _ _ => .inl
  intro other member some_taken
  rcases mem_or_eq_of_mem_set member with before | rfl
  · exact conserved.holds other before some_taken
  · exact .inl rfl

theorem Conserved.forget (conserved : Conserved hub) {index : Nat} {run next : ConversationRun}
    (at_run : hub.runs[index]? = some run) (goes_on : run.GoesOn next) (empty : next.taken = [])
    (safe : ∀ waiting ∈ run.taken, hub.Stored run.conversation waiting.compiled.messages) :
    Conserved (hub.run index next) := by
  obtain ⟨others, old, new⟩ := exists_others at_run
  have nothing : next.places = [] := by
    unfold ConversationRun.places
    rw [empty]
    rfl
  have after_placed : (hub.run index next).placed.Perm (hub.registry.waiting ++ others) := by
    have moved := new next
    rw [nothing, nil_append] at moved
    exact moved.append_left _
  have before_placed : hub.placed.Perm (run.places ++ (hub.registry.waiting ++ others)) :=
    (old.append_left _).trans (perm_append_comm_assoc _ _ _)
  have fewer {place : ConversationId × Waiting} (member : place ∈ (hub.run index next).placed) :
    place ∈ hub.placed :=
    before_placed.mem_iff.mpr (mem_append_right _ (after_placed.subset member))
  refine conserved.of (.set at_run goes_on)
    (CallsGoOn.refl hub hub.runs).forward ?_ conserved.eventIds ?_
    (fun place member => .inl (fewer member)) (List.Subset.refl _) (fun _ _ => .inl)
    (fun _ => .inl) conserved.once
    (fun place member => ?_) fun _ _ => .inl
  · intro other member some_taken
    rcases mem_or_eq_of_mem_set member with before | rfl
    · exact conserved.holds other before some_taken
    · exact absurd empty some_taken
  · have distinct := (before_placed.map fun place => place.2.call).nodup_iff.mp conserved.apart
    rw [map_append] at distinct
    exact (after_placed.map _).nodup_iff.mpr (nodup_append.mp distinct).2.1
  · rcases mem_append.mp (before_placed.subset member) with mine | other
    · obtain ⟨waiting, taken, rfl⟩ := mem_map.mp mine
      exact .inr (safe waiting taken)
    · exact .inl (after_placed.symm.subset other)

theorem Conserved.insert (conserved : Conserved hub) (conversation : ConversationId) (index : Nat)
    {inserted : List (Nat × CanonicalMessage)} (nodup : (inserted.map Prod.snd).Nodup)
    (closed : ∀ entry ∈ inserted, (∃ call, hub.calls[entry.1]? = some call) ∧ ¬hub.Open entry.1)
    (fresh : ∀ entry ∈ inserted, ∀ run, (entry.1, run, entry.2) ∉ hub.committed) :
    Conserved (hub.insert conversation index inserted) := by
  have moved := conserved.moveTo conversation (hub.chains conversation ++
    inserted.map fun entry => entry.2.payload)
  refine moved.of (.refl _) (CallsGoOn.refl hub hub.runs).forward moved.holds moved.eventIds
    moved.apart (fun _ => .inl)
    (List.Subset.refl _) (fun _ _ => .inl) (fun record member => ?_) ?_ (fun _ => .inl)
    fun _ _ => .inl
  · rcases mem_append.mp member with before | new
    · exact .inl before
    · obtain ⟨entry, listed, rfl⟩ := mem_map.mp new
      exact .inr (closed entry listed)
  · show ((hub.committed ++ _).map _).Nodup
    rw [map_append, map_map]
    refine nodup_append.mpr ⟨conserved.once, ?_, fun first old second new same => ?_⟩
    · exact List.Nodup.of_map Prod.snd (by rw [map_map]; exact nodup)
    · obtain ⟨⟨call, run, message⟩, member, rfl⟩ := mem_map.mp old
      obtain ⟨entry, listed, rfl⟩ := mem_map.mp new
      obtain ⟨rfl, rfl⟩ := Prod.mk.inj same
      exact fresh entry listed run member

theorem stored_insert {conversation : ConversationId} {index : Nat}
    {entries inserted : List (Nat × CanonicalMessage)}
    (ran : appendOnce (hub.chains conversation) entries = some inserted) :
    (hub.insert conversation index inserted).Stored conversation (entries.map Prod.snd) := by
  intro message member
  obtain ⟨entry, listed, rfl⟩ := mem_map.mp member
  have there {stored : CanonicalMessage} (chain : stored ∈ hub.chains conversation ++
    inserted.map fun entry => entry.2.payload) :
      (conversation, stored) ∈ (hub.insert conversation index inserted).stored :=
    mem_append_right _ (mem_map.mpr ⟨stored, chain, rfl⟩)
  rcases mem_append.mp ((appendOnce_spec ran).2.1 entry listed) with before | new
  · exact ⟨entry.2, there (mem_append_left _ before), rfl⟩
  · obtain ⟨other, is_inserted, is⟩ := mem_map.mp new
    refine ⟨other.2.payload, there (mem_append_right _ (mem_map.mpr ⟨other, is_inserted, rfl⟩)), ?_⟩
    rw [CanonicalMessage.payload_payload, is]

theorem Queued.closed {conversation : ConversationId} {compiled : CompiledMessages} {entry : Nat}
    (queued : hub.Queued conversation compiled entry) : (∃ call, hub.calls[entry]? = some call) ∧
    ¬hub.Open entry := by
  obtain ⟨call, result, at_entry, _, _, state⟩ := queued
  refine ⟨⟨call, at_entry⟩, fun ⟨same, at_same, is_open⟩ => ?_⟩
  obtain rfl := Option.some.inj (at_entry.symm.trans at_same)
  rw [state] at is_open
  rcases is_open with ⟨_, is⟩ | ⟨_, _, _, is, _⟩ <;> cases is

/-- A task appends the messages that it has taken. What is behind the append has been on the chain,
and what an engine has inserted before is still there. -/
theorem Conserved.commit (conserved : Conserved hub) {index count : Nat} {run : ConversationRun}
    {inserted : List (Nat × CanonicalMessage)} (at_run : hub.runs[index]? = some run)
    (ran : appendOnce (hub.chains run.conversation) (run.firsts.take count) = some inserted)
    (behind : ∀ entry ∈ run.firsts.drop count, ∃ stored,
      ((run.conversation, stored) ∈ hub.stored ∨ stored ∈ (run.firsts.take count).map Prod.snd) ∧
        stored.payload = entry.2.payload)
    (again : ∀ entry ∈ run.firsts.take count, ∀ other, (entry.1, other, entry.2) ∈ hub.committed →
      ∃ known ∈ hub.chains run.conversation, (Store.chainIdentity known).matches entry.2 = true) :
    Conserved (hub.commit index run inserted) := by
  obtain ⟨sublist, _, new, nodup⟩ := appendOnce_spec ran
  have mine {entry : Nat × CanonicalMessage} (member : entry ∈ run.firsts) :
      (∃ call, hub.calls[entry.1]? = some call) ∧ ¬hub.Open entry.1 := by
    obtain ⟨waiting, taken, listed⟩ := mem_flatMap.mp member
    obtain ⟨message, _, rfl⟩ := mem_map.mp listed
    have there : (run.conversation, waiting) ∈ hub.placed := mem_append_right _
      (mem_flatMap.mpr ⟨run, mem_of_getElem? at_run, mem_map.mpr ⟨waiting, taken, rfl⟩⟩)
    exact (conserved.placed _ there).closed
  have inserts : Conserved (hub.insert run.conversation index inserted) := by
    refine conserved.insert _ _ nodup (fun entry member => ?_) fun entry member other recorded => ?_
    · exact mine (mem_of_mem_take (sublist.subset member))
    · obtain ⟨known, on_chain, matched⟩ := again entry (sublist.subset member) other recorded
      rw [new entry member known on_chain] at matched
      cases matched
  have goes_on : run.GoesOn { run with stage := .running, taken := [] } := .same rfl rfl rfl rfl
  show Conserved
    ((hub.insert run.conversation index inserted).run index { run with stage := .running, taken := [] })
  refine inserts.forget at_run goes_on rfl fun waiting taken message member => ?_
  have first : (waiting.call, message) ∈ run.firsts.take count ++ run.firsts.drop count := by
    rw [take_append_drop]
    exact mem_flatMap.mpr ⟨waiting, taken, mem_map.mpr ⟨message, member, rfl⟩⟩
  have appended : (hub.insert run.conversation index inserted).Stored run.conversation _ :=
    stored_insert ran
  rcases mem_append.mp first with front | back
  · exact appended message (mem_map.mpr ⟨_, front, rfl⟩)
  · obtain ⟨stored, before | front, same⟩ := behind _ back
    · exact ⟨stored, mem_append_left _ before, same⟩
    · obtain ⟨other, there, is⟩ := appended stored front
      exact ⟨other, there, is.trans same⟩

theorem Conserved.append (conserved : Conserved hub) {index callIndex : Nat} {run : ConversationRun}
    {call : Call}
    {batch : MessageBatch} {inserted : List (Nat × CanonicalMessage)} (answers : Bool)
    (at_run : hub.runs[index]? = some run) (held : batch ∈ run.held)
    (at_call : hub.calls[callIndex]? = some call)
    (awaiting : call.state = .awaiting index batch)
    (ran : appendOnce (hub.chains run.conversation) (batch.messages.map (callIndex, ·)) =
      some inserted) :
    Conserved (hub.append index run batch inserted answers) := by
  obtain ⟨sublist, _, _, nodup⟩ := appendOnce_spec ran
  have its_call {entry : Nat × CanonicalMessage} (member : entry ∈ inserted) :
    entry.1 = callIndex := by
    obtain ⟨message, _, rfl⟩ := mem_map.mp (sublist.subset member)
    rfl
  have opened : hub.Open callIndex :=
    ⟨call, at_call, .inr ⟨index, batch, run, awaiting, at_run, mem_append_right _ held⟩⟩
  unfold Hub.append
  dsimp only
  generalize (if answers = true then some (if inserted =
    [] then CommandResult.duplicate else .applied) else none) = result
  have answered : Conserved (hub.run index (run.answer batch result)) :=
    conserved.run rfl at_run (.answer run batch result) rfl fun holds _ => holds
  refine answered.insert _ _ nodup (fun entry member => ?_) fun entry member other recorded => ?_
  · rw [its_call member]
    refine ⟨⟨call, at_call⟩, fun ⟨same, at_same, is_open⟩ => ?_⟩
    obtain rfl := Option.some.inj (at_call.symm.trans at_same)
    rcases is_open with ⟨_, is⟩ | ⟨place, other, next, is, at_next, there⟩
    · rw [awaiting] at is
      cases is
    · obtain ⟨rfl, rfl⟩ := CallState.awaiting.inj (awaiting.symm.trans is)
      have at_answer : (hub.run index (run.answer batch result)).runs[index]? =
        some (run.answer batch result) :=
        List.getElem?_set_self (List.getElem?_eq_some_iff.mp at_run).1
      obtain rfl := Option.some.inj (at_answer.symm.trans at_next)
      exact (conserved.tidy run (List.mem_of_getElem? at_run)).answer held result there
  · rw [its_call member] at recorded
    exact (conserved.records _ recorded).2 opened

theorem Conserved.queue (conserved : Conserved hub) {index : Nat} {call : Call}
    {result : CommandResult} (now : Nat)
    (at_call : hub.calls[index]? = some call) (queueing : call.state = .queueing result)
    (room : hub.registry.HasRoom call.conversation) :
    Conserved (hub.queue index call result now) := by
  have bound := (List.getElem?_eq_some_iff.mp at_call).1
  obtain ⟨eventIds, entry, same, found, places⟩ :=
    ConversationRegistry.queuePending_spec room conserved.eventIds now ⟨call.compiled, index⟩
  have is : hub.queue index call result now = { hub.call index call (.queued result entry.call) with
      registry := hub.registry.queuePending call.conversation now ⟨call.compiled, index⟩ } := by
    unfold Hub.queue
    dsimp only
    rw [found]
    rfl
  rw [is]
  have moves : Moves call { call with state := .queued result entry.call } := by
    refine .inr ⟨fun _ _ is => ?_, .inr ⟨nofun, nofun⟩⟩
    rw [queueing] at is
    cases is
  have forward (place : Nat) (other : Call) (at_place : hub.calls[place]? = some other) :
      ∃ next, (hub.calls.set index { call with state := .queued result entry.call })[place]? =
        some next ∧
        Moves other next := by
    by_cases same : index = place
    · subst same
      obtain rfl := Option.some.inj (at_call.symm.trans at_place)
      exact ⟨_, getElem?_set_self bound, moves⟩
    · exact ⟨other, (getElem?_set_ne same).trans at_place, .inl rfl⟩
  have backward {place : Nat} {next : Call}
      (at_place : (hub.calls.set index { call with state := .queued result entry.call })[place]? =
        some next) :
      hub.calls[place]? = some next ∨ next = { call with state := .queued result entry.call } := by
    rcases of_set at_place with ⟨_, is⟩ | ⟨_, before⟩
    · exact .inr is
    · exact .inl before
  have is_next {placed : List (ConversationId × Waiting)} {queued : Hub}
      (there : ∃ compiled, compiled.eventId = call.compiled.eventId ∧
        queued.Queued call.conversation compiled entry.call ∧ (call.conversation,
          ⟨compiled, entry.call⟩) ∈ placed) :
      (∀ other target, ({ call with state := .queued result entry.call } : Call).state =
        .queued other target →
        ∃ compiled, compiled.eventId = call.compiled.eventId ∧
          queued.Queued call.conversation compiled target ∧
          (call.conversation, ⟨compiled, target⟩) ∈ placed) := by
    intro other target state
    obtain ⟨_, rfl⟩ := CallState.queued.inj state
    exact there
  rcases places with ⟨member, waiting⟩ | ⟨rfl, waiting⟩
  · -- a message with its event id waits already
    have placed : ({ hub.call index call (.queued result entry.call) with
        registry := hub.registry.queuePending call.conversation now ⟨call.compiled, index⟩ } :
          Hub).placed.Perm hub.placed :=
      waiting.append_right _
    have there : (call.conversation, entry) ∈ hub.placed := mem_append_left _ member
    refine conserved.of (.refl _) forward conserved.holds eventIds
      ((placed.map _).nodup_iff.mpr conserved.apart)
      (fun place member => .inl (placed.subset member)) (List.Subset.refl _) (fun _ _ => .inl)
      (fun _ => .inl) conserved.once
      (fun place member => .inl (placed.symm.subset member)) fun place next at_place => ?_
    rcases backward at_place with before | rfl
    · exact .inl before
    · refine .inr ⟨is_next ⟨entry.compiled, same, ?_, placed.symm.subset there⟩, nofun, nofun⟩
      exact (conserved.placed _ there).stays forward
  · -- its message is the last one of the list
    have placed : ({ hub.call index call (.queued result index) with
        registry := hub.registry.queuePending call.conversation now ⟨call.compiled, index⟩ } :
          Hub).placed.Perm
          ((call.conversation, ⟨call.compiled, index⟩) :: hub.placed) := waiting.append_right _
    have fresh : index ∉ hub.placed.map fun place => place.2.call := by
      intro there
      obtain ⟨place, member, is⟩ := mem_map.mp there
      obtain ⟨other, _, at_other, _, _, state⟩ := conserved.placed place member
      rw [is] at at_other
      obtain rfl := Option.some.inj (at_call.symm.trans at_other)
      rw [queueing] at state
      cases state
    have queued : ({ hub.call index call (.queued result index) with
        registry := hub.registry.queuePending call.conversation now ⟨call.compiled, index⟩ } :
          Hub).Queued
          call.conversation call.compiled index :=
      ⟨{ call with state := .queued result index }, result, getElem?_set_self bound, rfl, rfl, rfl⟩
    refine conserved.of (.refl _) forward conserved.holds eventIds
      ((placed.map _).nodup_iff.mpr (nodup_cons.mpr ⟨fresh, conserved.apart⟩))
      (fun place member => ?_)
      (List.Subset.refl _) (fun _ _ => .inl) (fun _ => .inl) conserved.once
      (fun place member => .inl (placed.symm.subset (mem_cons_of_mem _ member)))
      fun place next at_place => ?_
    · rcases mem_cons.mp (placed.subset member) with rfl | before
      · exact .inr queued
      · exact .inl before
    · rcases backward at_place with before | rfl
      · exact .inl before
      · exact .inr ⟨is_next ⟨call.compiled, rfl, queued, placed.symm.subset mem_cons_self⟩, nofun,
          nofun⟩

/-! ### Runs of the registry -/

/-- A message that is queued fits in. -/
def Roomy (before : Hub) (label : Label) : Prop :=
  ∀ index call, label = .queues index → before.calls[index]? = some call →
    before.registry.HasRoom call.conversation

/-- What a task has taken when it gives up has been on the chain, and so has what is behind its
first append; and what an engine has inserted that ended before it answered is on the chain when a
task appends it again. -/
def Steady (before : Hub) (label : Label) : Prop :=
  (∀ index run, label = .givesUp index → before.runs[index]? = some run →
    ∀ waiting ∈ run.taken, before.Stored run.conversation waiting.compiled.messages) ∧
  ∀ index count run, label = .commits index count → before.runs[index]? = some run →
    (∀ entry ∈ run.firsts.drop count, ∃ stored,
      ((run.conversation, stored) ∈ before.stored ∨ stored ∈ (run.firsts.take count).map Prod.snd) ∧
        stored.payload = entry.2.payload) ∧
    ∀ entry ∈ run.firsts.take count, ∀ other, (entry.1, other, entry.2) ∈ before.committed →
      ∃ known ∈ before.chains run.conversation, (Store.chainIdentity known).matches entry.2 = true

theorem roomy_of_ne {before : Hub} {label : Label} (other : ∀ index, label ≠ .queues index) :
    Roomy before label :=
  fun index _ is => absurd is (other index)

theorem steady_of_ne {before : Hub} {label : Label} (goes : ∀ index, label ≠ .givesUp index)
    (commits : ∀ index count, label ≠ .commits index count) : Steady before label :=
  ⟨fun index _ is => absurd is (goes index),
    fun index count _ is => absurd is (commits index count)⟩

theorem deliver_cases (registry : ConversationRegistry) (conversation : ConversationId)
    (compiled : CompiledMessages) :
    registry.deliver conversation compiled = .returned .applied ∨
      registry.deliver conversation compiled = .returned .staleTarget ∨
      registry.deliver conversation compiled = .queueing .runEnded ∨
      ∃ run, registry.deliver conversation compiled = .submitting run := by
  unfold ConversationRegistry.deliver
  split
  · exact .inl rfl
  · split
    · exact .inr (.inr (.inl rfl))
    · split
      · exact .inr (.inl rfl)
      · exact .inr (.inr (.inr ⟨_, rfl⟩))

theorem moves_of_submitting {call next : Call} {index : Nat}
    (submitting : call.state = .submitting index) :
    Moves call next := by
  refine .inr ⟨fun _ _ is => ?_, .inl ⟨index, submitting⟩⟩
  rw [submitting] at is
  cases is

theorem Conserved.submit (conserved : Conserved hub) {index runIndex : Nat} {call : Call}
    {run : ConversationRun}
    (at_call : hub.calls[index]? = some call) (submitting : call.state = .submitting runIndex)
    (at_run : hub.runs[runIndex]? = some run) : Conserved (hub.submit index call runIndex run) := by
  rcases submitMessages_spec run.port call.compiled.eventId call.compiled.messages
    (decide (call.compiled.delivery = .breakMessages)) with ⟨result, closed, is⟩ | ⟨command, batch,
      is⟩
  · have refused : hub.submit index call runIndex run = (hub.run runIndex run).call index call
      (.queueing result) := by
      unfold Hub.submit
      dsimp only
      rw [is]
      rcases closed with rfl | rfl <;> rfl
    rw [refused]
    exact conserved.frame rfl (.set at_run (.refl run))
      (.set at_run (.refl run) rfl fun holds _ => holds)
      (List.Subset.refl _) (fun _ _ => .inl) rfl (.set at_call (moves_of_submitting submitting)
        nofun nofun nofun)
  · unfold Hub.submit
    dsimp only
    rw [is]
    have goes_on := ConversationRun.GoesOn.enqueues batch (Eq.refl run.port.enqueued.length)
    refine conserved.frame rfl (.set at_run goes_on) (.set at_run goes_on rfl fun holds _ => holds)
      (List.Subset.refl _) (fun _ _ => .inl) rfl (.set at_call (moves_of_submitting submitting)
        nofun ?_ nofun)
    rintro place sent awaiting
    obtain ⟨rfl, rfl⟩ := CallState.awaiting.inj awaiting
    refine ⟨_, List.getElem?_set_self (List.getElem?_eq_some_iff.mp at_run).1, ?_⟩
    show run.port.enqueued.length < (run.port.enqueued ++ [_]).length
    rw [List.length_append]
    exact Nat.lt_succ_self _

theorem Conserved.activate (conserved : Conserved hub) {index : Nat} {run : ConversationRun}
    (at_run : hub.runs[index]? = some run) : Conserved (hub.activate index run) := by
  have active : run.GoesOn { run with stage := .active } := .same rfl rfl rfl rfl
  have goes_on := RunsGoOn.set at_run active
  have keeps := RunsKeep.set at_run active rfl fun _ _ => .inr (.inl rfl)
  unfold Hub.activate ConversationRegistry.activate
  dsimp only
  cases (hub.registry.current.lookup run.conversation).filter (· != index) with
  | none =>
    exact conserved.frame rfl goes_on keeps (List.Subset.refl _) (fun _ _ => .inl) rfl (.refl hub _)
  | some previous =>
    have cancels (run : ConversationRun) : run.GoesOn { run with port := run.port.cancel } :=
      .moves .cancels
    refine conserved.frame rfl (goes_on.trans (.modify previous cancels)) (keeps.trans ?_)
      (List.Subset.refl _)
      (fun _ _ => .inl) rfl (.refl hub _)
    exact .modify previous cancels (fun _ => rfl) fun _ holds => holds

theorem Conserved.return_ (conserved : Conserved hub) {index runIndex : Nat} {call : Call}
    {batch : MessageBatch}
    (result : CommandResult) (at_call : hub.calls[index]? = some call)
    (awaiting : call.state = .awaiting runIndex batch) :
    Conserved (hub.return_ index call result) := by
  refine conserved.frame rfl (.refl _) (.refl _) (List.Subset.refl _)
    (fun _ _ => .inl) rfl (.set at_call ?_ ?_ ?_ ?_)
  · refine .inr ⟨fun _ _ is => ?_, .inr ?_⟩
    · rw [awaiting] at is
      cases is
    · dsimp only
      split <;> exact ⟨nofun, nofun⟩
  · dsimp only
    split <;> exact nofun
  · dsimp only
    split <;> exact nofun
  · dsimp only
    split
    · exact nofun
    case isFalse open_ =>
      rintro other is
      obtain rfl := CallState.returned.inj is
      exact not_or.mp open_

theorem Conserved.step (conserved : Conserved hub) {label : Label} (step : hub.Step label after)
    (roomy : Roomy hub label) (steady : Steady hub label) : Conserved after := by
  have nothing_taken {index : Nat} {run : ConversationRun} (at_run : hub.runs[index]? = some run)
      (stage : ¬run.Holds) : run.taken = [] := by
    by_contra some_taken
    exact stage (conserved.holds run (mem_of_getElem? at_run) some_taken)
  cases step with
  | calls conversation compiled =>
    refine conserved.frame rfl (.refl _) (.refl _) (List.Subset.refl _)
      (fun _ _ => .inl) rfl (.append ?_ ?_ ?_)
    all_goals
      dsimp only
      rcases deliver_cases hub.registry conversation compiled with is | is | is | ⟨run, is⟩
      all_goals
        rw [is]
        simp
  | submits at_call submitting at_run => exact conserved.submit at_call submitting at_run
  | answered at_call awaiting at_run awaited => exact conserved.return_ _ at_call awaiting
  | @queues index call result now at_call queueing =>
    exact conserved.queue now at_call queueing (roomy index call rfl at_call)
  | begins conversation background =>
    exact conserved.frame rfl (.append _ (ConversationRun.tidy_begins conversation background))
      (.append _ rfl)
      (List.Subset.refl _) (fun _ _ => .inl) rfl (.refl hub _)
  | takes at_run stage => exact conserved.take at_run stage
  | activates at_run stage => exact conserved.activate at_run
  | @claims index run base at_run stage =>
    have claimed : Conserved (hub.run index { run with stage := .claimed }) :=
      conserved.run rfl at_run (.same rfl rfl rfl rfl) rfl fun _ _ => .inr (.inr rfl)
    exact claimed.moveTo run.conversation base
  | @commits index run inserted count at_run stage all ran =>
    obtain ⟨behind, again⟩ := steady.2 index count run rfl at_run
    exact conserved.commit at_run ran behind again
  | @givesUp index run at_run stage =>
    exact conserved.forget at_run (.finish run) rfl (steady.1 index run rfl at_run)
  | moves at_run moves => exact conserved.run rfl at_run (.moves moves) rfl fun holds _ => holds
  | receives at_run stage received is =>
    exact conserved.run rfl at_run (.receives received is) rfl fun holds _ => holds
  | appends answers at_run stage held at_call awaiting ran =>
    exact conserved.append answers at_run held at_call awaiting ran
  | @drops index run batch at_run held =>
    exact conserved.run rfl at_run (.answer run batch none) rfl fun holds _ => holds
  | turns chain at_run stage => exact conserved.moveTo _ chain
  | @finishes index run at_run stage =>
    have empty : run.taken = [] :=
      nothing_taken at_run (by unfold ConversationRun.Holds; rw [stage]; simp)
    exact conserved.run rfl at_run (.finish run)
      empty.symm fun _ some_taken => absurd empty some_taken
  | @releases index run at_run stage =>
    have empty : run.taken = [] :=
      nothing_taken at_run (by unfold ConversationRun.Holds; rw [stage]; simp)
    refine conserved.run ?_ at_run (.same rfl rfl rfl rfl)
      rfl fun _ some_taken => absurd empty some_taken
    unfold ConversationRegistry.release
    split <;> rfl

/-- What a call has returned. -/
def answer? (call : Call) : Option CommandResult :=
  match call.state with
  | .queued result _ | .returned result => some result
  | .submitting _ | .awaiting _ _ | .queueing _ => none

/-- What a call has queued waits in the list of its conversation, is in the hands of a task that has
taken it and is on its way to commit it, or has been on the chain of the conversation, with all its
messages. -/
def Keeps (hub : Hub) (conversation : ConversationId) (waiting : Waiting) : Prop :=
  (∃ queuedAt messages, hub.registry.pending.lookup conversation = some (queuedAt, messages) ∧
    waiting ∈ messages.queued) ∨
    (∃ run ∈ hub.runs, run.conversation = conversation ∧ run.Holds ∧ waiting ∈ run.taken) ∨
      hub.Stored conversation waiting.compiled.messages

/-- What each call has queued for which `deliver` returned `RunClosing` or `RunEnded` is kept, with
its messages, unless one with its event id waited already, which is kept then. It is in one place,
and no message of a call is inserted twice. -/
structure NeverLost (hub : Hub) : Prop where
  kept : ∀ (index : Nat) (call : Call) (result : CommandResult), hub.calls[index]? = some call →
    answer? call = some result →
    result = .runClosing ∨ result = .runEnded → ∃ (entry : Nat) (other : Call), hub.calls[entry]? =
      some other ∧
      other.conversation = call.conversation ∧ other.compiled.eventId = call.compiled.eventId ∧
        hub.Keeps call.conversation ⟨other.compiled, entry⟩
  apart : (hub.placed.map fun place => place.2.call).Nodup
  once : (hub.committed.map fun record => (record.1, record.2.2)).Nodup

theorem Conserved.neverLost (conserved : Conserved hub) : NeverLost hub where
  kept index call result at_index answer closed := by
    cases state : call.state with
    | queued same entry =>
      obtain ⟨compiled, event, ⟨other, _, at_entry, conversation, rfl, _⟩, place⟩ :=
        conserved.queued index call same entry at_index state
      refine ⟨entry, other, at_entry, conversation, event, ?_⟩
      rcases place with placed | stored
      · rcases mem_append.mp placed with pending | taken
        · obtain ⟨key, value, found, inside⟩ := mem_gather.mp pending
          obtain ⟨waiting, listed, is⟩ := mem_map.mp inside
          obtain ⟨rfl, rfl⟩ := Prod.mk.inj is
          exact .inl ⟨value.1, value.2, found, listed⟩
        · obtain ⟨run, member, inside⟩ := mem_flatMap.mp taken
          obtain ⟨waiting, listed, is⟩ := mem_map.mp inside
          obtain ⟨run_conversation, rfl⟩ := Prod.mk.inj is
          have holds := conserved.holds run member (ne_nil_of_mem listed)
          exact .inr (.inl ⟨run, member, run_conversation, holds, listed⟩)
      · exact .inr (.inr stored)
    | returned same =>
      unfold answer? at answer
      rw [state] at answer
      obtain rfl := Option.some.inj answer
      have open_ := conserved.returned index call same at_index state
      rcases closed with rfl | rfl
      · exact absurd rfl open_.1
      · exact absurd rfl open_.2
    | submitting | awaiting | queueing =>
      unfold answer? at answer
      rw [state] at answer
      cases answer
  apart := conserved.apart
  once := conserved.once

theorem conserved_new : Conserved .new := by
  have calls (index : Nat) (call : Call) : Hub.new.calls[index]? ≠ some call :=
    fun found => by cases found
  constructor
  case tidy => exact forall_mem_nil _
  case holds => exact forall_mem_nil _
  case eventIds => exact fun conversation entry found => by cases found
  case apart => exact nodup_nil
  case placed => exact forall_mem_nil _
  case tickets => exact fun index call _ _ found => absurd found (calls index call)
  case chains => exact fun _ => forall_mem_nil _
  case records => exact forall_mem_nil _
  case once => exact nodup_nil
  case queued => exact fun index call _ _ found => absurd found (calls index call)
  case returned => exact fun index call _ found => absurd found (calls index call)

/-- **A message delivered to a conversation is never lost between runs**, in every run of the
registry in which at most 64 conversations and 256 messages wait, and whose steps are steady. -/
theorem never_lost {start last : Hub} {labels : List Label} (begins : hubs.initial start)
    (run : (hubs.confine fun before label _ => Roomy before label ∧
      Steady before label).Run start labels last) :
    NeverLost last := by
  subst begins
  have conserved : Conserved last := by
    refine @System.run_invariant _ _ _ Conserved (fun _ _ _ conserved step => ?_)
      _ _ _ conserved_new run
    exact Conserved.step conserved step.1 step.2.1 step.2.2
  exact conserved.neverLost

/-! ### A task that is superseded -/

/-- A conversation. -/
def sampleConversation : ConversationId := ⟨"conversation"⟩

/-- The end of a background agent. -/
def sampleWakeup : CanonicalMessage :=
  { messageId := "runtime:wakeup-1"
    role := .user
    origin := .runtime
    content := .parts [.text "A task is done."]
    runtimeEventId := some "wakeup-1" }

/-- It comes in for the next run. -/
def sampleMessage : CompiledMessages := ⟨"wakeup-1", none, [sampleWakeup], .insertMessages⟩

/-- The message has come in while no run was active, and a task has taken it. -/
def afterTake : Hub :=
  let queued := ({ Hub.new with calls := [⟨sampleConversation, sampleMessage, .queueing .runEnded⟩]
    } : Hub).queue 0
    ⟨sampleConversation, sampleMessage, .queueing .runEnded⟩ .runEnded 0
  ({ queued with runs := [.begins sampleConversation false] } : Hub).take 0
  (.begins sampleConversation false)

theorem afterTake_run : (hubs.confine fun before label _ => Roomy before label ∧
    Steady before label).Run .new
    [.other, .queues 0, .other, .other] afterTake := by
  have steady (before : Hub) : Roomy before .other ∧ Steady before .other :=
    ⟨roomy_of_ne nofun, steady_of_ne nofun nofun⟩
  refine System.Run.cons ⟨Step.calls sampleConversation sampleMessage, steady _⟩ (System.Run.cons
    ⟨@Step.queues _ 0 ⟨sampleConversation, sampleMessage, .queueing .runEnded⟩ .runEnded 0 rfl rfl,
      ?_,
      steady_of_ne nofun nofun⟩
    (System.Run.cons ⟨Step.begins sampleConversation false, steady _⟩
      (System.Run.single ⟨@Step.takes _ 0 (.begins sampleConversation false) rfl rfl, steady _⟩)))
  rintro index call is at_call
  obtain rfl := Label.queues.inj is
  obtain rfl := Option.some.inj at_call
  show 0 < 64
  decide

/-- The task commits what it has taken. -/
theorem never_lost_committed : ∃ labels last,
    (hubs.confine fun before label _ => Roomy before label ∧
      Steady before label).Run .new labels last ∧
      last.committed = [(0, 0, sampleWakeup)] ∧ last.chains sampleConversation = [sampleWakeup] ∧
        NeverLost last := by
  have steady (before : Hub) : Roomy before .other ∧ Steady before .other :=
    ⟨roomy_of_ne nofun, steady_of_ne nofun nofun⟩
  have claimed := afterTake_run.append (System.Run.cons ⟨@Step.activates _ 0 _ rfl rfl, steady _⟩
    (System.Run.single ⟨@Step.claims _ 0 _ [] rfl rfl, steady _⟩))
  have committed := claimed.snoc ⟨@Step.commits _ 0 _ [(0, sampleWakeup)] 1 rfl rfl
    (.inl (by decide)) (by decide +kernel),
    roomy_of_ne nofun, fun index _ is => Label.noConfusion is, fun index count run is at_run => by
      obtain ⟨rfl, rfl⟩ := Label.commits.inj is
      obtain rfl := Option.some.inj at_run
      exact ⟨forall_mem_nil _, fun entry _ other recorded => absurd recorded not_mem_nil⟩⟩
  exact ⟨_, _, committed, rfl, rfl, never_lost rfl committed⟩

/-- The task is superseded: the message for which `deliver` returned `RunEnded` is nowhere. -/
theorem taken_then_lost : ∃ labels last,
    (hubs.confine fun before label _ => Roomy before label).Run .new labels last ∧
    last.calls.map answer? = [some .runEnded] ∧ ¬NeverLost last := by
  have taken : (hubs.confine fun before label _ => Roomy before label).Run .new [.other, .queues 0,
    .other, .other]
      afterTake := by
    refine @System.Run.confine_mono _ _ hubs (fun _ => True) _ _ ?_ ?_ _ _ _ trivial afterTake_run
    · exact fun _ _ _ _ _ => trivial
    · exact fun _ _ _ _ _ both => both.1
  have lost := taken.snoc ⟨@Step.givesUp _ 0 _ rfl (.inr (.inl rfl)), roomy_of_ne nofun⟩
  refine ⟨_, _, lost, rfl, fun never => ?_⟩
  obtain ⟨entry, other, at_entry, _, _, keeps⟩ := never.kept 0 _ .runEnded rfl rfl (.inr rfl)
  obtain rfl : other = ⟨sampleConversation, sampleMessage, .queued .runEnded 0⟩ :=
    mem_singleton.mp (mem_of_getElem? at_entry)
  rcases keeps with ⟨queuedAt, messages, found, _⟩ | ⟨run, member, _, holds, _⟩ | stored
  · cases found
  · obtain rfl := mem_singleton.mp member
    rcases holds with is | is | is <;> cases is
  · obtain ⟨_, there, _⟩ := stored sampleWakeup mem_cons_self
    cases there

end Hub

end Byok.Cursor.Conversation
