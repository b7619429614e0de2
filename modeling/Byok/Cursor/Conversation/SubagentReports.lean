/-
**What a parent is told of its subagents.**

* `Sound`, `run_sound` — the invariant of every run.
* `reports_to_parent` — a completion goes to a conversation whose Task call was committed; an end that finds the call
  committed is answered by a completion, its own or one of the last six hours; and two completions of one identity are
  that far apart.
* `reused_call_ids` — what goes wrong with a call id that is used again.
-/

import Byok.Cursor.Conversation.Subagents

namespace Byok.Cursor.Conversation

open Library Compile List

/-! ### The invariant -/

/-- A Task call with an id has completed, in a run of the conversation and with the title. -/
def Found (seen : TaskTables) (callId : String) (conversation : ConversationId) (title : String) : Prop :=
  ∃ task ∈ seen.completedTasks callId, task.conversationId = conversation ∧ TaskTables.described task.arguments = some title

/-- All completed calls with an id are of a conversation. -/
def Owned (seen : TaskTables) (callId : String) (conversation : ConversationId) : Prop :=
  ∀ task ∈ seen.completedTasks callId, task.conversationId = conversation

/-- A call with an id has completed, and those that have are described. -/
def Committed (seen : TaskTables) (callId : String) : Prop :=
  seen.completedTasks callId ≠ [] ∧
    ∀ task ∈ seen.completedTasks callId, ∃ title, TaskTables.described task.arguments = some title

/-- The tables in which a call was looked up. -/
def Outcome.seen? : Outcome → Option TaskTables
  | .failed => none
  | .noTask seen => some seen
  | .notProjected seen => some seen
  | .alreadyNotified seen _ => some seen
  | .woken report _ => some report.seen

/-- A context is that of a subagent that has ended. -/
def Contextual (child callId title context : String) : Prop :=
  ∃ detail status, context = contextText (finishedSubagent child callId title detail status) .subagent status (some child)

namespace Report

/-- What the ledger has of a completion. -/
def entry (report : Report) : Entry String := ⟨report.compiled.eventId, report.now, report.checked, report.clears⟩

/-- A completion is of a subagent and a call. -/
def Of (report : Report) (child callId : String) : Prop := report.child = child ∧ report.callId = callId

/-- What a completion is. -/
structure Sound (clock : Nat) (report : Report) : Prop where
  found : Found report.seen report.callId report.conversation report.title
  compiled : ∃ timestamp context, Contextual report.child report.callId report.title context ∧
    report.compiled = ⟨completionId report.child report.callId, none,
      [wakeupMessage timestamp (completionId report.child report.callId) context], .insertMessages⟩
  read : report.now ≤ report.checked
  past : report.checked ≤ clock

theorem Sound.wait {clock later : Nat} {report : Report} (sound : report.Sound clock) (le : clock ≤ later) :
    report.Sound later :=
  ⟨sound.found, sound.compiled, sound.read, Nat.le_trans sound.past le⟩

end Report

/-- What is known of a call for a subagent and a Task call, by how far it is. -/
def Phase.Sound (reports : List Report) (clock : Nat) (child callId : String) : Phase → Prop
  | .asking => True
  | .reading seen conversation title => Found seen callId conversation title
  | .checking seen conversation title context now =>
    Found seen callId conversation title ∧ Contextual child callId title context ∧ now ≤ clock
  | .waking report => report ∈ reports ∧ report.Of child callId
  | .returned .failed => True
  | .returned (.noTask seen) => seen.completedTasks callId = [] ∨
    ∃ task ∈ seen.completedTasks callId, TaskTables.described task.arguments = none
  | .returned (.notProjected _) => False
  | .returned (.alreadyNotified _ now) =>
    ∃ report ∈ reports, report.compiled.eventId = completionId child callId ∧ now - report.now < notifiedTtl
  | .returned (.woken report _) => report ∈ reports ∧ report.Of child callId

theorem Phase.Sound.mono {reports more : List Report} {clock later : Nat} {child callId : String} {phase : Phase}
    (sound : phase.Sound reports clock child callId) (subset : reports ⊆ more) (le : clock ≤ later) :
    phase.Sound more later child callId := by
  match phase, sound with
  | .asking, _ => trivial
  | .reading .., found => exact found
  | .checking .., ⟨found, context, past⟩ => exact ⟨found, context, Nat.le_trans past le⟩
  | .waking _, ⟨listed, own⟩ => exact ⟨subset listed, own⟩
  | .returned .failed, _ => trivial
  | .returned (.noTask _), nothing => exact nothing
  | .returned (.alreadyNotified ..), ⟨report, listed, is⟩ => exact ⟨report, subset listed, is⟩
  | .returned (.woken ..), ⟨listed, own⟩ => exact ⟨subset listed, own⟩

namespace Ending

variable {reports more : List Report} {clock later : Nat} {ending : Ending}

/-- What is known of an end. -/
def Sound (reports : List Report) (clock : Nat) (ending : Ending) : Prop :=
  ending.phase.Sound reports clock ending.child ending.callId

theorem Sound.mono (sound : ending.Sound reports clock) (subset : reports ⊆ more) (le : clock ≤ later) :
    ending.Sound more later :=
  Phase.Sound.mono sound subset le

theorem Sound.fail (sound : ending.Sound reports clock) : ending.fail.Sound reports clock := by
  unfold Ending.fail
  split
  · trivial
  · exact sound

theorem Sound.ask (sound : ending.Sound reports clock) (tables : TaskTables) (row : Option TaskRow) :
    (ending.ask tables row).Sound reports clock := by
  unfold Ending.ask
  split
  case h_2 => exact sound
  by_cases given : tables.gives ending.callId row = true
  · rw [if_pos given]
    split <;> rename_i found
    · exact TaskTables.backgroundTask_found given found
    · exact TaskTables.backgroundTask_none given found
  · rw [if_neg given]
    exact sound

theorem completionStatus_specified (finish : TransportFinish) : completionStatus finish ≠ .unspecified := by
  cases finish <;> nofun

theorem Sound.read (sound : ending.Sound reports clock) (messages : Option (List CanonicalMessage)) :
    (ending.read clock messages).Sound reports clock := by
  unfold Ending.read
  split
  case h_2 => exact sound
  case h_1 seen conversation title at_ =>
    rw [Sound, at_] at sound
    obtain ⟨task, listed, whose, named⟩ := sound
    obtain ⟨projection, projected, context, -⟩ := @project_subagentCompletion ending.child ending.callId title
      (messages.bind finalText) (completionStatus ending.finish) agentMode ending.childNamed ending.callNamed
      (TaskTables.described_ne_empty named) (completionStatus_specified _)
    rw [projected]
    exact ⟨⟨task, listed, whose, named⟩, ⟨_, _, context⟩, Nat.le_refl _⟩

end Ending

namespace Subagents

/-- The invariant. -/
structure Sound (state : Subagents) : Prop where
  ends : ∀ ending ∈ state.ends, ending.Sound state.reports state.clock
  reports : ∀ report ∈ state.reports, report.Sound state.clock
  ledger : Remembers notifiedLimits (state.reports.map Report.entry) state.notified state.clears state.clock

variable {state : Subagents}

theorem new_sound (tables : TaskTables) : (new tables).Sound where
  ends _ listed := by cases listed
  reports _ listed := by cases listed
  ledger := .empty _ _

theorem Sound.change (sound : state.Sound) {index : Nat} {changed : Ending → Ending}
    (kept : ∀ ending ∈ state.ends[index]?, (changed ending).Sound state.reports state.clock) :
    (state.change index changed).Sound where
  ends ending listed := by
    rcases mem_modify listed with before | ⟨old, at_index, rfl⟩
    · exact sound.ends ending before
    · exact kept old at_index
  reports := sound.reports
  ledger := sound.ledger

theorem live : 0 < notifiedLimits.ttl := by decide

theorem Sound.report (sound : state.Sound) {index : Nat} {ending : Ending} {report : Report} {notified : Ledger String}
    {clears : Nat} (at_index : state.ends[index]? = some ending) (own : report.Of ending.child ending.callId)
    (is : report.Sound state.clock)
    (ledger : Remembers notifiedLimits (state.reports.map Report.entry ++ [report.entry]) notified clears state.clock) :
    Sound { { state with notified, clears }.change index fun ending => { ending with phase := .waking report } with
      reports := state.reports ++ [report] } where
  ends other listed := by
    have subset : state.reports ⊆ state.reports ++ [report] := subset_append_left _ _
    rcases mem_modify listed with before | ⟨old, there, rfl⟩
    · exact (sound.ends other before).mono subset (Nat.le_refl _)
    · obtain rfl := Option.some.inj (at_index.symm.trans there)
      exact ⟨mem_append_right _ (mem_singleton_self _), own⟩
  reports other listed := by
    rcases mem_append.mp listed with before | last
    · exact sound.reports other before
    · exact mem_singleton.mp last ▸ is
  ledger := by
    rw [map_append]
    exact ledger

theorem Sound.check (sound : state.Sound) (index : Nat) (timestamp : String) : (state.check index timestamp).Sound := by
  unfold Subagents.check alreadyNotified
  split
  case h_2 => exact sound
  case h_1 ending at_index =>
    split
    case h_2 => exact sound
    case h_1 seen conversation title context now at_ =>
      have known := sound.ends ending (mem_of_getElem? at_index)
      rw [Ending.Sound, at_] at known
      obtain ⟨found, contextual, past⟩ := known
      obtain ⟨ledger, refused⟩ := sound.ledger.enter past live ending.eventId
      by_cases again : (state.notified.enter notifiedLimits now ending.eventId).1 = true
      · rw [if_pos again]
        rw [if_pos again] at ledger
        obtain ⟨_, logged, same, young⟩ := refused again
        obtain ⟨report, listed, rfl⟩ := mem_map.mp logged
        have entered : ({ state with
            notified := (state.notified.enter notifiedLimits now ending.eventId).2
            clears := state.clears + (state.notified.room notifiedLimits now).1.toNat } : Subagents).Sound :=
          ⟨sound.ends, sound.reports, ledger⟩
        refine entered.change fun other there => ?_
        obtain rfl := Option.some.inj (at_index.symm.trans there)
        exact ⟨report, listed, same, young⟩
      · rw [if_neg again]
        rw [if_neg again] at ledger
        exact sound.report at_index ⟨rfl, rfl⟩ ⟨found, ⟨timestamp, context, contextual, rfl⟩, past, Nat.le_refl _⟩ ledger

theorem Sound.wake (sound : state.Sound) (index late : Nat) : (state.wake index late).Sound := by
  unfold Subagents.wake
  split
  case h_2 => exact sound
  case h_1 ending at_index =>
    split
    case h_2 => exact sound
    case h_1 report at_ =>
      have known := sound.ends ending (mem_of_getElem? at_index)
      rw [Ending.Sound, at_] at known
      have stopped : ({ state with stopped := (isStopped (state.clock - late) state.stopped report.conversation).2 } :
          Subagents).Sound := ⟨sound.ends, sound.reports, sound.ledger⟩
      refine stopped.change fun other same => ?_
      obtain rfl := Option.some.inj (at_index.symm.trans same)
      exact known

/-- **Every step keeps the invariant.** -/
theorem act_sound (sound : state.Sound) (act : SubagentAct) : (state.act act).Sound := by
  cases act with
  | store tables => exact ⟨sound.ends, sound.reports, sound.ledger⟩
  | wait elapsed =>
    have later : state.clock ≤ state.clock + elapsed := Nat.le_add_right _ _
    exact ⟨fun ending listed => (sound.ends ending listed).mono (List.Subset.refl _) later,
      fun report listed => (sound.reports report listed).wait later, sound.ledger.wait later⟩
  | stop conversation late => exact ⟨sound.ends, sound.reports, sound.ledger⟩
  | reopen conversation => exact ⟨sound.ends, sound.reports, sound.ledger⟩
  | finish handle finish =>
    refine ⟨fun ending listed => ?_, sound.reports, sound.ledger⟩
    rcases mem_append.mp listed with before | new
    · exact sound.ends ending before
    · rw [Option.mem_toList, subagentFinished] at new
      split at new
      · obtain rfl := Option.some.inj new
        trivial
      · cases new
  | fail index => exact sound.change fun ending at_index => (sound.ends ending (mem_of_getElem? at_index)).fail
  | ask index row =>
    exact sound.change fun ending at_index => (sound.ends ending (mem_of_getElem? at_index)).ask _ _
  | read index messages =>
    exact sound.change fun ending at_index => (sound.ends ending (mem_of_getElem? at_index)).read _
  | check index timestamp => exact sound.check index timestamp
  | wake index late => exact sound.wake index late

theorem run_sound (tables : TaskTables) (acts : List SubagentAct) : (run tables acts).Sound := by
  induction acts using List.reverseRecOn with
  | nil => exact new_sound tables
  | append_singleton acts last ih =>
    rw [run_concat]
    exact act_sound ih last

/-! ### What follows for a parent -/

/-- The completions of an identity. -/
def completions (state : Subagents) (eventId : String) : List Report :=
  state.reports.filter fun report => report.compiled.eventId = eventId

theorem Sound.apart (sound : state.Sound) :
    state.reports.Pairwise fun first second => first.compiled.eventId = second.compiled.eventId →
      first.clears = second.clears → first.now + notifiedTtl ≤ second.checked :=
  pairwise_map.mp sound.ledger.apart

theorem Sound.conversation (sound : state.Sound) {report : Report} (listed : report ∈ state.reports) :
    report.seen.completedTasks report.callId ≠ [] ∧
      ∀ parent, Owned report.seen report.callId parent → report.conversation = parent := by
  obtain ⟨task, completed, whose, -⟩ := (sound.reports report listed).found
  exact ⟨ne_nil_of_mem completed, fun parent owned => whose.symm.trans (owned task completed)⟩

theorem Sound.answered (sound : state.Sound) {ending : Ending} {outcome : Outcome} {seen : TaskTables}
    (listed : ending ∈ state.ends) (returned : ending.phase = .returned outcome) (looked : outcome.seen? = some seen)
    (committed : Committed seen ending.callId) :
    ∃ report ∈ state.completions ending.eventId, (∃ suppressed, outcome = .woken report suppressed) ∨
      ∃ now, outcome = .alreadyNotified seen now ∧ now - report.now < notifiedTtl := by
  have known := sound.ends ending listed
  rw [Ending.Sound, returned] at known
  cases outcome with
  | failed => cases looked
  | noTask other =>
    obtain rfl := Option.some.inj looked
    rcases known with none | ⟨task, completed, undescribed⟩
    · exact absurd none committed.1
    · obtain ⟨title, described⟩ := committed.2 task completed
      rw [undescribed] at described
      cases described
  | notProjected other => exact known.elim
  | alreadyNotified other now =>
    obtain rfl := Option.some.inj looked
    obtain ⟨report, entered, same, young⟩ := known
    exact ⟨report, mem_filter.mpr ⟨entered, decide_eq_true same⟩, .inr ⟨now, rfl, young⟩⟩
  | woken report suppressed =>
    obtain ⟨entered, child, call⟩ := known
    obtain ⟨_, _, _, compiled⟩ := (sound.reports report entered).compiled
    refine ⟨report, mem_filter.mpr ⟨entered, decide_eq_true ?_⟩, .inl ⟨suppressed, rfl⟩⟩
    rw [compiled, child, call]
    rfl

theorem Sound.once (sound : state.Sound) (kept : state.clears = 0) {eventId : String}
    (young : ∀ report ∈ state.completions eventId, state.clock < report.now + notifiedTtl) :
    (state.completions eventId).length ≤ 1 := by
  have never : (state.completions eventId).Pairwise fun _ _ => False := by
    refine List.Pairwise.imp_of_mem (fun {first second} first_listed second_listed apart => ?_) (sound.apart.filter _)
    obtain ⟨first_entered, first_same⟩ := mem_filter.mp first_listed
    obtain ⟨second_entered, second_same⟩ := mem_filter.mp second_listed
    have uncleared {report : Report} (entered : report ∈ state.reports) : report.clears = 0 :=
      Nat.le_zero.mp (kept ▸ sound.ledger.past _ (mem_map_of_mem entered))
    have later := apart ((of_decide_eq_true first_same).trans (of_decide_eq_true second_same).symm)
      ((uncleared first_entered).trans (uncleared second_entered).symm)
    have past := (sound.reports second second_entered).past
    have recent := young first first_listed
    omega
  match list : state.completions eventId with
  | [] => exact Nat.zero_le _
  | [_] => exact Nat.le_refl _
  | first :: second :: _ =>
    rw [list] at never
    exact (rel_of_pairwise_cons never mem_cons_self).elim

end Subagents

open Subagents

/-- **A background subagent reports to its parent, once.** -/
theorem reports_to_parent (tables : TaskTables) (acts : List SubagentAct) :
    (∀ report ∈ (run tables acts).reports, report.seen.completedTasks report.callId ≠ [] ∧
      (∀ parent, Owned report.seen report.callId parent → report.conversation = parent) ∧
      ∃ timestamp context, Contextual report.child report.callId report.title context ∧
        report.compiled = ⟨completionId report.child report.callId, none,
          [wakeupMessage timestamp (completionId report.child report.callId) context], .insertMessages⟩) ∧
    (run tables acts).reports.Pairwise (fun first second => first.compiled.eventId = second.compiled.eventId →
      first.clears = second.clears → first.now + notifiedTtl ≤ second.checked) ∧
    (∀ ending ∈ (run tables acts).ends, ∀ outcome seen, ending.phase = .returned outcome → outcome.seen? = some seen →
      Committed seen ending.callId →
      (∃ report ∈ (run tables acts).completions ending.eventId, (∃ suppressed, outcome = .woken report suppressed) ∨
        ∃ now, outcome = .alreadyNotified seen now ∧ now - report.now < notifiedTtl) ∧
      ((run tables acts).clears = 0 →
        (∀ report ∈ (run tables acts).completions ending.eventId, (run tables acts).clock < report.now + notifiedTtl) →
        ∃ report, (run tables acts).completions ending.eventId = [report])) ∧
    ∀ runId, (run tables acts).tables.hasRunningBackgroundSubagents runId = true →
      ∃ childId child callId, (run tables acts).tables.runs.lookup childId = some child ∧
        child.parentRunId = some runId ∧ child.status = .running ∧ child.parentToolCallId = some callId ∧
        (run tables acts).tables.completedTasks callId ≠ [] ∧
        ((∀ task ∈ (run tables acts).tables.completedTasks callId, task.runId = runId) →
          ∃ task ∈ (run tables acts).tables.completedTasks callId, task.runId = runId) := by
  have sound := run_sound tables acts
  refine ⟨fun report listed => ⟨(sound.conversation listed).1, (sound.conversation listed).2,
    (sound.reports report listed).compiled⟩, sound.apart, ?_, ?_⟩
  · intro ending listed outcome seen returned looked committed
    have answered := sound.answered listed returned looked committed
    refine ⟨answered, fun kept young => ?_⟩
    obtain ⟨report, there, -⟩ := answered
    have once := sound.once kept young
    have some : 0 < ((run tables acts).completions ending.eventId).length := length_pos_of_mem there
    exact length_eq_one_iff.mp (by omega)
  · intro runId running
    obtain ⟨childId, child, callId, stored, parent, runs, called, completed⟩ :=
      TaskTables.hasRunningBackgroundSubagents_iff.mp running
    refine ⟨childId, child, callId, stored, parent, runs, called, completed, fun own => ?_⟩
    obtain ⟨task, listed⟩ := exists_mem_of_ne_nil _ completed
    exact ⟨task, listed, own task listed⟩

/-! ### Call ids that are used again -/

/-- Whether a call that has returned has woken a parent. -/
def Phase.told : Phase → Option Bool
  | .returned (.woken _ _) => some true
  | .returned _ => some false
  | _ => none

/-- A Task call, and when it has completed. -/
def sampleCall : Option Int → TaskCall
  | some completedAtMs => ⟨.object [("description", .string "task")], .completed, some completedAtMs⟩
  | none => ⟨.object [("description", .string "task")], .pending, none⟩

/-- The row of a Task call that has completed. -/
def sampleRow (run conversation : String) (completedAtMs : Int) : Option TaskRow :=
  some ⟨⟨run⟩, ⟨conversation⟩, .object [("description", .string "task")], some completedAtMs⟩

/-- The parent has launched a subagent, which runs. -/
def launched (completed : Bool) : TaskTables where
  runs := AList.insert ⟨"child-run"⟩ ⟨⟨"child"⟩, some ⟨"run-1"⟩, some "task-call", .running⟩
    (AList.singleton ⟨"run-1"⟩ ⟨⟨"parent"⟩, none, none, .running⟩)
  toolRounds := AList.singleton ⟨"round-1"⟩ ⟨"run-1"⟩
  toolRoundCalls := AList.singleton (⟨"round-1"⟩, "task-call") (sampleCall (if completed then some 1 else none))
  callsOfRounds := by cases completed <;> decide
  roundsOfRuns := by decide

/-- Another round of the parent has a call with the same id. -/
def launchedAgain : TaskTables where
  runs := (launched true).runs
  toolRounds := AList.insert ⟨"round-2"⟩ ⟨"run-1"⟩ (launched true).toolRounds
  toolRoundCalls := AList.insert (⟨"round-2"⟩, "task-call") (sampleCall (some 2))
    (launched true).toolRoundCalls
  callsOfRounds := by decide
  roundsOfRuns := by decide

/-- So has a round of another conversation. -/
def launchedElsewhere (completed : Bool) : TaskTables where
  runs := AList.insert ⟨"run-2"⟩ ⟨⟨"other"⟩, none, none, .running⟩ (launched completed).runs
  toolRounds := AList.insert ⟨"round-2"⟩ ⟨"run-2"⟩ (launched completed).toolRounds
  toolRoundCalls := AList.insert (⟨"round-2"⟩, "task-call") (sampleCall (some 2))
    (launched completed).toolRoundCalls
  callsOfRounds := by cases completed <;> decide
  roundsOfRuns := by cases completed <;> decide

/-- The transport of the subagent. -/
def childHandle : TransportHandle := ⟨"child-request", some "child", some ⟨none, some "task-call"⟩, by decide, by decide⟩

/-- The run of the subagent ends, and the call for it returns. -/
def childEnds (index : Nat) (row : Option TaskRow) : List SubagentAct :=
  [.finish childHandle .success, .ask index row, .read index (some []), .check index "now", .wake index 0]

/-- A subagent that is launched again under the id of its call, an hour later, is not notified again; and when another
conversation has used the id, it is told instead, even of a subagent whose own call waits for it. -/
theorem reused_call_ids :
    ((run (launched true) (childEnds 0 (sampleRow "run-1" "parent" 1) ++
      [.store launchedAgain, .wait 3600000000000] ++ childEnds 1 (sampleRow "run-1" "parent" 2))).ends.map
        fun ending => ending.phase.told) = [some true, some false] ∧
    ((run (launchedElsewhere true) (childEnds 0 (sampleRow "run-2" "other" 2))).reports.map
      Report.conversation) = [⟨"other"⟩] ∧
    ((run (launchedElsewhere false) (childEnds 0 (sampleRow "run-2" "other" 2))).reports.map
      Report.conversation) = [⟨"other"⟩] ∧
    (launchedElsewhere false).hasRunningBackgroundSubagents ⟨"run-1"⟩ = true := by
  refine ⟨by decide +kernel, by decide +kernel, by decide +kernel, by decide +kernel⟩

end Byok.Cursor.Conversation
