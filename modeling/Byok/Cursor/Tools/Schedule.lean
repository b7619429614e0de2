/-
**The queues of edits.** `server/src/cursor/tools/schedule.rs`.

An edit of a file reads it and writes it back, so edits of one path key must not overlap. `EditSchedule`
lets one edit of a key go ahead and holds the others back in a queue.

* `Kept` — the invariant: the queue of a key holds what was submitted for it and has not started.
* `reachable_inOrder` — what holds of the edits in every run.
-/

import Byok.Library.System
import Byok.Model.Message
import Mathlib.Data.List.Nodup
import Mathlib.Logic.Function.Basic

namespace Byok

open Library List

/-- `DeferredEdit`, for any type of contexts. -/
structure DeferredEdit (κ : Type) where
  call : ToolCall
  messageIndex : Nat
  context : κ

structure EditPathQueue (κ : Type) where
  activeCallId : String
  waiting : List (DeferredEdit κ)

structure EditSchedule (κ : Type) where
  paths : String → Option (EditPathQueue κ)
  activePaths : String → Option String

namespace EditSchedule

variable {κ : Type}

/-- `EditSchedule::default`. -/
def empty : EditSchedule κ := ⟨fun _ => none, fun _ => none⟩

def startOrDefer (schedule : EditSchedule κ) (path : String) (edit : DeferredEdit κ) :
    Option (DeferredEdit κ) × EditSchedule κ :=
  match schedule.paths path with
  | some queue =>
    let queue := { queue with waiting := queue.waiting ++ [edit] }
    (none, { schedule with paths := Function.update schedule.paths path (some queue) })
  | none =>
    (some edit,
      { paths := Function.update schedule.paths path (some ⟨edit.call.callId, []⟩)
        activePaths := Function.update schedule.activePaths edit.call.callId (some path) })

def complete (schedule : EditSchedule κ) (callId : String) :
    Except Error (Option (DeferredEdit κ)) × EditSchedule κ :=
  match schedule.activePaths callId with
  | none => (.ok none, schedule)
  | some path =>
    let schedule := { schedule with activePaths := Function.update schedule.activePaths callId none }
    match schedule.paths path with
    | none =>
      (.error (.protocol ("active edit path disappeared for call " ++ callId)), schedule)
    | some queue =>
      if queue.activeCallId ≠ callId then
        (.error (.protocol ("edit path is active for " ++ queue.activeCallId ++ ", not " ++ callId)),
          schedule)
      else
        match queue.waiting with
        | next :: waiting =>
          (.ok (some next),
            { paths := Function.update schedule.paths path (some ⟨next.call.callId, waiting⟩)
              activePaths := Function.update schedule.activePaths next.call.callId (some path) })
        | [] => (.ok none, { schedule with paths := Function.update schedule.paths path none })

end EditSchedule

/-! ### Histories -/

/-- A schedule, and what happened to it: the edits with their path keys, in the order in which they were
submitted and started, and the calls that were completed while they ran. -/
structure EditHistory (κ : Type) where
  schedule : EditSchedule κ
  submitted : List (String × DeferredEdit κ)
  started : List (String × DeferredEdit κ)
  completed : List String

inductive EditLabel (κ : Type) where
  | submit (path : String) (edit : DeferredEdit κ)
  | complete (callId : String)

/-- The edits of one path key. -/
def editsAt {κ : Type} (path : String) (edits : List (String × DeferredEdit κ)) : List (DeferredEdit κ) :=
  edits.filterMap fun entry => if entry.1 = path then some entry.2 else none

/-- The calls of the edits. -/
def callIds {κ : Type} (edits : List (String × DeferredEdit κ)) : List String :=
  edits.map fun entry => entry.2.call.callId

namespace EditHistory

variable {κ : Type}

def submit (history : EditHistory κ) (path : String) (edit : DeferredEdit κ) : EditHistory κ where
  schedule := (history.schedule.startOrDefer path edit).2
  submitted := history.submitted ++ [(path, edit)]
  started := history.started ++
    ((history.schedule.startOrDefer path edit).1.map fun edit => (path, edit)).toList
  completed := history.completed

/-- The edit that a completion starts, under the key of the completed one. -/
def starts (history : EditHistory κ) (callId : String) : List (String × DeferredEdit κ) :=
  match history.schedule.activePaths callId, (history.schedule.complete callId).1 with
  | some path, .ok (some next) => [(path, next)]
  | _, _ => []

def complete (history : EditHistory κ) (callId : String) : EditHistory κ where
  schedule := (history.schedule.complete callId).2
  submitted := history.submitted
  started := history.started ++ history.starts callId
  completed := if (history.schedule.activePaths callId).isSome then history.completed ++ [callId]
    else history.completed

/-- The calls of a schedule in any order, where no two edits have the same call id. -/
def system : System (EditHistory κ) (EditLabel κ) where
  initial history := history = ⟨.empty, [], [], []⟩
  step before label after :=
    match label with
    | .submit path edit => edit.call.callId ∉ callIds before.submitted ∧ after = before.submit path edit
    | .complete callId => after = before.complete callId

/-! ### The promise -/

/-- What holds of the edits at each point. -/
structure InOrder (history : EditHistory κ) : Prop where
  single : ∀ path, ∀ first ∈ editsAt path history.started, ∀ second ∈ editsAt path history.started,
    first.call.callId ∉ history.completed → second.call.callId ∉ history.completed → first = second
  order : ∀ path, editsAt path history.started <+: editsAt path history.submitted
  once : (callIds history.started).Nodup
  served : ∀ path, editsAt path history.started ≠ editsAt path history.submitted →
    ∃ edit ∈ editsAt path history.started, edit.call.callId ∉ history.completed

/-- What a completion does: that of a running edit starts the next edit of its key, if there is one, and
any other changes nothing. -/
structure Completes (history : EditHistory κ) (callId : String) : Prop where
  idle : (callId ∈ callIds history.started → callId ∈ history.completed) →
    history.schedule.complete callId = (.ok none, history.schedule)
  next : ∀ path edit, (path, edit) ∈ history.started → edit.call.callId = callId →
    callId ∉ history.completed →
    (history.schedule.complete callId).1 =
        .ok (editsAt path history.submitted)[(editsAt path history.started).length]? ∧
      editsAt path (history.complete callId).started =
        (editsAt path history.submitted).take ((editsAt path history.started).length + 1)

/-! ### The invariant -/

/-- The queue of a path key. -/
def KeptAt (history : EditHistory κ) (path : String) : Prop :=
  match history.schedule.paths path with
  | none => editsAt path history.submitted = editsAt path history.started ∧
      ∀ edit ∈ editsAt path history.started, edit.call.callId ∈ history.completed
  | some queue => ∃ done active, editsAt path history.started = done ++ [active] ∧
      editsAt path history.submitted = done ++ [active] ++ queue.waiting ∧
      active.call.callId = queue.activeCallId ∧ active.call.callId ∉ history.completed ∧
      ∀ edit ∈ done, edit.call.callId ∈ history.completed

structure Kept (history : EditHistory κ) : Prop where
  queues : ∀ path, history.KeptAt path
  active : ∀ callId path, history.schedule.activePaths callId = some path ↔
    ∃ queue, history.schedule.paths path = some queue ∧ queue.activeCallId = callId
  distinct : (callIds history.submitted).Nodup
  known : ∀ callId ∈ history.completed, callId ∈ callIds history.started
  begun : (callIds history.started).Nodup ∧ ∀ entry ∈ history.started, entry ∈ history.submitted

/-! ### Edits of one key -/

theorem editsAt_append (path : String) (first second : List (String × DeferredEdit κ)) :
    editsAt path (first ++ second) = editsAt path first ++ editsAt path second :=
  filterMap_append

theorem editsAt_same (path : String) (edit : DeferredEdit κ) : editsAt path [(path, edit)] = [edit] := by
  simp [editsAt]

theorem editsAt_other {path other : String} (apart : other ≠ path) (edit : DeferredEdit κ) :
    editsAt path [(other, edit)] = [] := by
  simp [editsAt, apart]

theorem mem_editsAt {path : String} {edit : DeferredEdit κ} {edits : List (String × DeferredEdit κ)} :
    edit ∈ editsAt path edits ↔ (path, edit) ∈ edits := by
  unfold editsAt
  rw [mem_filterMap]
  constructor
  · rintro ⟨entry, member, found⟩
    by_cases same : entry.1 = path
    · rw [if_pos same] at found
      obtain rfl := Option.some.inj found
      rw [← same]
      exact member
    · rw [if_neg same] at found
      cases found
  · intro member
    exact ⟨(path, edit), member, by rw [if_pos rfl]⟩

theorem mem_callIds {path : String} {edit : DeferredEdit κ} {edits : List (String × DeferredEdit κ)}
    (member : (path, edit) ∈ edits) : edit.call.callId ∈ callIds edits :=
  mem_map.mpr ⟨(path, edit), member, rfl⟩

theorem callIds_append (first second : List (String × DeferredEdit κ)) :
    callIds (first ++ second) = callIds first ++ callIds second :=
  map_append

theorem editsAt_sublist (path : String) (edits : List (String × DeferredEdit κ)) :
    ((editsAt path edits).map fun edit => edit.call.callId).Sublist (callIds edits) := by
  induction edits with
  | nil => exact List.Sublist.slnil
  | cons entry edits ih =>
    by_cases same : entry.1 = path
    · have cons : editsAt path (entry :: edits) = entry.2 :: editsAt path edits := by
        simp [editsAt, same]
      rw [cons]
      exact ih.cons_cons _
    · have skip : editsAt path (entry :: edits) = editsAt path edits := by
        simp [editsAt, same]
      rw [skip]
      exact ih.cons _

theorem Kept.unique {history : EditHistory κ} (kept : Kept history) {first second : String × DeferredEdit κ}
    (mem : first ∈ history.submitted) (mem' : second ∈ history.submitted)
    (same : first.2.call.callId = second.2.call.callId) : first = second :=
  inj_on_of_nodup_map kept.distinct mem mem' same

/-! ### What the calls do -/

theorem Kept.running {history : EditHistory κ} (kept : Kept history) {path : String}
    {queue : EditPathQueue κ} (found : history.schedule.paths path = some queue) :
    ∃ done active, editsAt path history.started = done ++ [active] ∧
      editsAt path history.submitted = done ++ [active] ++ queue.waiting ∧
      active.call.callId = queue.activeCallId ∧ active.call.callId ∉ history.completed ∧
      ∀ edit ∈ done, edit.call.callId ∈ history.completed := by
  have here := kept.queues path
  rw [KeptAt, found] at here
  exact here

theorem Kept.active_started {history : EditHistory κ} (kept : Kept history) {path : String}
    {queue : EditPathQueue κ} (found : history.schedule.paths path = some queue) :
    queue.activeCallId ∈ callIds history.started := by
  obtain ⟨done, active, begun, -, same, -⟩ := kept.running found
  rw [← same]
  have member : active ∈ editsAt path history.started := by
    rw [begun]
    exact mem_append_right _ (mem_singleton_self _)
  exact mem_callIds (mem_editsAt.mp member)

theorem Kept.quiet {history : EditHistory κ} (kept : Kept history) {path : String}
    (absent : history.schedule.paths path = none) :
    editsAt path history.submitted = editsAt path history.started ∧
      ∀ edit ∈ editsAt path history.started, edit.call.callId ∈ history.completed := by
  have here := kept.queues path
  rw [KeptAt, absent] at here
  exact here

theorem empty_kept : Kept (⟨.empty, [], [], []⟩ : EditHistory κ) where
  queues path := by
    refine ⟨rfl, fun edit member => ?_⟩
    cases member
  active callId path := by simp [EditSchedule.empty]
  distinct := nodup_nil
  known callId member := by cases member
  begun := ⟨nodup_nil, fun entry member => by cases member⟩

theorem KeptAt.busy {history : EditHistory κ} {path : String} {queue : EditPathQueue κ}
    (found : history.schedule.paths path = some queue) {done : List (DeferredEdit κ)}
    {active : DeferredEdit κ} (begun : editsAt path history.started = done ++ [active])
    (all : editsAt path history.submitted = done ++ [active] ++ queue.waiting)
    (same : active.call.callId = queue.activeCallId)
    (running : active.call.callId ∉ history.completed)
    (ended : ∀ edit ∈ done, edit.call.callId ∈ history.completed) : history.KeptAt path := by
  unfold KeptAt
  rw [found]
  exact ⟨done, active, begun, all, same, running, ended⟩

theorem KeptAt.idle {history : EditHistory κ} {path : String}
    (absent : history.schedule.paths path = none)
    (all : editsAt path history.submitted = editsAt path history.started)
    (ended : ∀ edit ∈ editsAt path history.started, edit.call.callId ∈ history.completed) :
    history.KeptAt path := by
  unfold KeptAt
  rw [absent]
  exact ⟨all, ended⟩

theorem KeptAt.frame {history after : EditHistory κ} {path : String} (kept : history.KeptAt path)
    (paths : after.schedule.paths path = history.schedule.paths path)
    (submitted : editsAt path after.submitted = editsAt path history.submitted)
    (started : editsAt path after.started = editsAt path history.started)
    (grows : ∀ callId ∈ history.completed, callId ∈ after.completed)
    (runs : ∀ queue, history.schedule.paths path = some queue →
      queue.activeCallId ∈ after.completed → queue.activeCallId ∈ history.completed) :
    after.KeptAt path := by
  unfold KeptAt at kept ⊢
  rw [paths, submitted, started]
  cases found : history.schedule.paths path with
  | none =>
    rw [found] at kept
    exact ⟨kept.1, fun edit member => grows _ (kept.2 edit member)⟩
  | some queue =>
    rw [found] at kept
    obtain ⟨done, active, begun, all, same, running, ended⟩ := kept
    refine ⟨done, active, begun, all, same, fun completed => running ?_,
      fun edit member => grows _ (ended edit member)⟩
    rw [same] at completed ⊢
    exact runs queue found completed

theorem submit_kept {history : EditHistory κ} (kept : Kept history) {path : String}
    {edit : DeferredEdit κ} (fresh : edit.call.callId ∉ callIds history.submitted) :
    Kept (history.submit path edit) := by
  have distinct : (callIds (history.submitted ++ [(path, edit)])).Nodup := by
    rw [callIds_append]
    exact nodup_append.mpr ⟨kept.distinct, pairwise_singleton _ _, fun first member second single => by
      rw [mem_singleton.mp single]
      rintro rfl
      exact fresh member⟩
  have unstarted : edit.call.callId ∉ callIds history.started := fun member => by
    obtain ⟨entry, held, same⟩ := mem_map.mp member
    have old : entry.2.call.callId ∈ callIds history.submitted := mem_callIds (kept.begun.2 entry held)
    rw [same] at old
    exact fresh old
  cases found : history.schedule.paths path with
  | some queue =>
    have after : history.submit path edit =
        ⟨{ history.schedule with
            paths := Function.update history.schedule.paths path
              (some { queue with waiting := queue.waiting ++ [edit] }) },
          history.submitted ++ [(path, edit)], history.started, history.completed⟩ := by
      simp [submit, EditSchedule.startOrDefer, found]
    rw [after]
    obtain ⟨done, active, begun, all, same, running, ended⟩ := kept.running found
    refine ⟨fun path' => ?queues, fun callId path' => ?active, distinct, kept.known, kept.begun.1,
      fun entry member => mem_append_left _ (kept.begun.2 entry member)⟩
    case queues =>
      by_cases here : path' = path
      · subst here
        refine KeptAt.busy (Function.update_self _ _ _) begun ?_ same running ended
        show editsAt path' (history.submitted ++ [(path', edit)]) = _
        rw [editsAt_append, all, editsAt_same, append_assoc]
      · refine (kept.queues path').frame (Function.update_of_ne here _ _) ?_ rfl
          (fun _ member => member) fun _ _ member => member
        show editsAt path' (history.submitted ++ [(path, edit)]) = _
        rw [editsAt_append, editsAt_other (Ne.symm here), append_nil]
    case active =>
      rw [kept.active]
      by_cases here : path' = path
      · subst here
        simp [found]
      · simp [Function.update_of_ne here]
  | none =>
    have after : history.submit path edit =
        ⟨⟨Function.update history.schedule.paths path (some ⟨edit.call.callId, []⟩),
            Function.update history.schedule.activePaths edit.call.callId (some path)⟩,
          history.submitted ++ [(path, edit)], history.started ++ [(path, edit)],
          history.completed⟩ := by
      simp [submit, EditSchedule.startOrDefer, found]
    rw [after]
    obtain ⟨all, ended⟩ := kept.quiet found
    have unknown : edit.call.callId ∉ history.completed := fun member => unstarted (kept.known _ member)
    refine ⟨fun path' => ?queues', fun callId path' => ?active', distinct, fun callId member => ?known, ?once,
      fun entry member => ?begun⟩
    case queues' =>
      by_cases here : path' = path
      · subst here
        refine KeptAt.busy (Function.update_self _ _ _) ?_ ?_ rfl unknown ended
        · show editsAt path' (history.started ++ [(path', edit)]) = _
          rw [editsAt_append, editsAt_same]
        · show editsAt path' (history.submitted ++ [(path', edit)]) = _
          rw [editsAt_append, editsAt_same, all, append_nil]
      · refine (kept.queues path').frame (Function.update_of_ne here _ _) ?_ ?_
          (fun _ member => member) fun _ _ member => member
        · show editsAt path' (history.submitted ++ [(path, edit)]) = _
          rw [editsAt_append, editsAt_other (Ne.symm here), append_nil]
        · show editsAt path' (history.started ++ [(path, edit)]) = _
          rw [editsAt_append, editsAt_other (Ne.symm here), append_nil]
    case active' =>
      show Function.update history.schedule.activePaths edit.call.callId (some path) callId = some path' ↔
        ∃ queue, Function.update history.schedule.paths path (some ⟨edit.call.callId, []⟩) path' =
          some queue ∧ queue.activeCallId = callId
      by_cases this : callId = edit.call.callId
      · subst this
        rw [Function.update_self]
        constructor
        · intro equal
          obtain rfl := Option.some.inj equal
          exact ⟨_, Function.update_self _ _ _, rfl⟩
        · rintro ⟨queue, held, same⟩
          by_cases here : path' = path
          · rw [here]
          · -- Only edits that were submitted run.
            rw [Function.update_of_ne here] at held
            have running := kept.active_started held
            rw [same] at running
            exact absurd running unstarted
      · rw [Function.update_of_ne this, kept.active]
        by_cases here : path' = path
        · subst here
          rw [Function.update_self, found]
          constructor
          · rintro ⟨queue, none, -⟩
            cases none
          · rintro ⟨queue, new, same⟩
            obtain rfl := Option.some.inj new
            exact absurd same.symm this
        · rw [Function.update_of_ne here]
    case once =>
      rw [callIds_append]
      refine nodup_append.mpr ⟨kept.begun.1, pairwise_singleton _ _,
        fun first member second single => ?_⟩
      rw [mem_singleton.mp single]
      rintro rfl
      exact unstarted member
    case known =>
      rw [callIds_append]
      exact mem_append_left _ (kept.known callId member)
    case begun =>
      rcases mem_append.mp member with old | this
      · exact mem_append_left _ (kept.begun.2 entry old)
      · exact mem_append_right _ this

/-- All that a completion can do. It never fails. -/
inductive Completion (schedule : EditSchedule κ) (callId : String) : Prop
  | idle (inactive : schedule.activePaths callId = none)
      (same : schedule.complete callId = (.ok none, schedule))
  | last {path : String} (active : schedule.activePaths callId = some path)
      (found : schedule.paths path = some ⟨callId, []⟩)
      (ends : schedule.complete callId =
        (.ok none, ⟨Function.update schedule.paths path none,
          Function.update schedule.activePaths callId none⟩))
  | next {path : String} {next : DeferredEdit κ} {waiting : List (DeferredEdit κ)}
      (active : schedule.activePaths callId = some path)
      (found : schedule.paths path = some ⟨callId, next :: waiting⟩)
      (goes : schedule.complete callId =
        (.ok (some next), ⟨Function.update schedule.paths path (some ⟨next.call.callId, waiting⟩),
          Function.update (Function.update schedule.activePaths callId none) next.call.callId
            (some path)⟩))

theorem Kept.completion {history : EditHistory κ} (kept : Kept history) (callId : String) :
    Completion history.schedule callId := by
  cases active : history.schedule.activePaths callId with
  | none =>
    refine .idle active ?_
    simp only [EditSchedule.complete, active]
  | some path =>
    obtain ⟨⟨activeCallId, waiting⟩, found, rfl⟩ := (kept.active callId path).mp active
    cases waiting with
    | nil =>
      refine .last active found ?_
      simp only [EditSchedule.complete, active, found]
      rw [if_neg (fun other => other rfl)]
    | cons next waiting =>
      refine .next active found ?_
      simp only [EditSchedule.complete, active, found]
      rw [if_neg (fun other => other rfl)]

theorem Kept.apart {history : EditHistory κ} (kept : Kept history) {callId path other : String}
    {queue : EditPathQueue κ} (active : history.schedule.activePaths callId = some path)
    (found : history.schedule.paths other = some queue) (apart : other ≠ path) :
    queue.activeCallId ≠ callId := by
  intro same
  have here := (kept.active callId other).mpr ⟨queue, found, same⟩
  rw [active] at here
  exact apart (Option.some.inj here).symm

theorem Kept.waiting_fresh {history : EditHistory κ} (kept : Kept history) {path : String}
    {queue : EditPathQueue κ} (found : history.schedule.paths path = some queue)
    {edit : DeferredEdit κ} (waits : edit ∈ queue.waiting) :
    edit.call.callId ∉ callIds history.started := by
  obtain ⟨done, active, begun, all, -⟩ := kept.running found
  intro member
  obtain ⟨entry, held, same⟩ := mem_map.mp member
  have submitted : (path, edit) ∈ history.submitted :=
    mem_editsAt.mp (by rw [all]; exact mem_append_right _ waits)
  obtain rfl : entry = (path, edit) := kept.unique (kept.begun.2 entry held) submitted same
  have begun' : edit ∈ done ++ [active] := by
    rw [← begun]
    exact mem_editsAt.mpr held
  have distinct := (editsAt_sublist path history.submitted).nodup kept.distinct
  rw [all, map_append] at distinct
  exact (nodup_append.mp distinct).2.2 _ (mem_map_of_mem begun') _
    (mem_map_of_mem waits) rfl

theorem complete_kept {history : EditHistory κ} (kept : Kept history) (callId : String) :
    Kept (history.complete callId) := by
  cases kept.completion callId with
  | idle inactive same =>
    have after : history.complete callId = history := by
      simp [complete, starts, inactive, same]
    rwa [after]
  | @last path active found ends =>
    have after : history.complete callId =
        ⟨⟨Function.update history.schedule.paths path none,
            Function.update history.schedule.activePaths callId none⟩,
          history.submitted, history.started, history.completed ++ [callId]⟩ := by
      simp [complete, starts, active, ends]
    rw [after]
    obtain ⟨done, edit, begun, all, same, running, ended⟩ := kept.running found
    refine ⟨fun path' => ?queues, fun callId' path' => ?active, kept.distinct, fun callId' member => ?known,
      kept.begun⟩
    case queues =>
      by_cases here : path' = path
      · subst here
        refine KeptAt.idle (Function.update_self _ _ _) ?_ fun other member => ?_
        · show editsAt path' history.submitted = editsAt path' history.started
          rw [all, begun, append_nil]
        · change other ∈ editsAt path' history.started at member
          rw [begun] at member
          rcases mem_append.mp member with old | this
          · exact mem_append_left _ (ended other old)
          · rw [mem_singleton.mp this, same]
            exact mem_append_right _ (mem_singleton_self callId)
      · exact (kept.queues path').frame (Function.update_of_ne here _ _) rfl rfl
          (fun _ member => mem_append_left _ member)
          fun queue held member => (mem_append.mp member).resolve_right fun this =>
            kept.apart active held here (mem_singleton.mp this)
    case active =>
      show Function.update history.schedule.activePaths callId none callId' = some path' ↔
        ∃ queue, Function.update history.schedule.paths path none path' = some queue ∧
          queue.activeCallId = callId'
      by_cases here : path' = path
      · subst here
        rw [Function.update_self]
        constructor
        · intro still
          by_cases this : callId' = callId
          · rw [this, Function.update_self] at still
            cases still
          · rw [Function.update_of_ne this, kept.active] at still
            obtain ⟨queue, held, other⟩ := still
            rw [found] at held
            obtain rfl := Option.some.inj held
            exact absurd other.symm this
        · rintro ⟨queue, none, -⟩
          cases none
      · rw [Function.update_of_ne here]
        by_cases this : callId' = callId
        · rw [this, Function.update_self]
          constructor
          · intro none
            cases none
          · rintro ⟨queue, held, other⟩
            exact absurd other (kept.apart active held here)
        · rw [Function.update_of_ne this, kept.active]
    case known =>
      rcases mem_append.mp member with old | this
      · exact kept.known callId' old
      · rw [mem_singleton.mp this]
        exact kept.active_started found
  | @next path next waiting active found goes =>
    have after : history.complete callId =
        ⟨⟨Function.update history.schedule.paths path (some ⟨next.call.callId, waiting⟩),
            Function.update (Function.update history.schedule.activePaths callId none)
              next.call.callId (some path)⟩,
          history.submitted, history.started ++ [(path, next)], history.completed ++ [callId]⟩ := by
      simp [complete, starts, active, goes]
    rw [after]
    obtain ⟨done, edit, begun, all, same, running, ended⟩ := kept.running found
    have fresh : next.call.callId ∉ callIds history.started :=
      kept.waiting_fresh found mem_cons_self
    have apart : callId ≠ next.call.callId := by
      rintro rfl
      exact fresh (kept.active_started found)
    refine ⟨fun path' => ?queues', fun callId' path' => ?active', kept.distinct,
      fun callId' member => ?known', ?once, fun entry member => ?begun⟩
    case queues' =>
      by_cases here : path' = path
      · subst here
        refine KeptAt.busy (Function.update_self _ _ _) (?_ : _ = (done ++ [edit]) ++ [next]) ?_ rfl ?_ ?_
        · show editsAt path' (history.started ++ [(path', next)]) = _
          rw [editsAt_append, begun, editsAt_same]
        · show editsAt path' history.submitted = _
          rw [all, append_assoc (done ++ [edit]), singleton_append]
        · intro completed
          rcases mem_append.mp completed with old | this
          · exact fresh (kept.known _ old)
          · exact apart (mem_singleton.mp this).symm
        · intro other member
          rcases mem_append.mp member with old | this
          · exact mem_append_left _ (ended other old)
          · rw [mem_singleton.mp this, same]
            exact mem_append_right _ (mem_singleton_self callId)
      · refine (kept.queues path').frame (Function.update_of_ne here _ _) rfl ?_
          (fun _ member => mem_append_left _ member)
          fun queue held member => (mem_append.mp member).resolve_right fun this =>
            kept.apart active held here (mem_singleton.mp this)
        show editsAt path' (history.started ++ [(path, next)]) = _
        rw [editsAt_append, editsAt_other (Ne.symm here), append_nil]
    case active' =>
      show Function.update (Function.update history.schedule.activePaths callId none)
          next.call.callId (some path) callId' = some path' ↔
        ∃ queue, Function.update history.schedule.paths path (some ⟨next.call.callId, waiting⟩) path' =
          some queue ∧ queue.activeCallId = callId'
      by_cases here : path' = path
      · subst here
        rw [Function.update_self]
        constructor
        · intro goes
          by_cases new : callId' = next.call.callId
          · exact ⟨_, rfl, new.symm⟩
          · rw [Function.update_of_ne new] at goes
            by_cases this : callId' = callId
            · rw [this, Function.update_self] at goes
              cases goes
            · rw [Function.update_of_ne this, kept.active] at goes
              obtain ⟨queue, held, other⟩ := goes
              rw [found] at held
              obtain rfl := Option.some.inj held
              exact absurd other.symm this
        · rintro ⟨queue, held, new⟩
          obtain rfl := Option.some.inj held
          rw [← new, Function.update_self]
      · rw [Function.update_of_ne here]
        by_cases new : callId' = next.call.callId
        · rw [new, Function.update_self]
          constructor
          · intro goes
            exact absurd (Option.some.inj goes).symm here
          · rintro ⟨queue, held, other⟩
            have running := kept.active_started held
            rw [other] at running
            exact absurd running fresh
        · rw [Function.update_of_ne new]
          by_cases this : callId' = callId
          · rw [this, Function.update_self]
            constructor
            · intro none
              cases none
            · rintro ⟨queue, held, other⟩
              exact absurd other (kept.apart active held here)
          · rw [Function.update_of_ne this, kept.active]
    case known' =>
      rw [callIds_append]
      rcases mem_append.mp member with old | this
      · exact mem_append_left _ (kept.known callId' old)
      · rw [mem_singleton.mp this]
        exact mem_append_left _ (kept.active_started found)
    case once =>
      rw [callIds_append]
      refine nodup_append.mpr ⟨kept.begun.1, pairwise_singleton _ _,
        fun first member second single => ?_⟩
      rw [mem_singleton.mp single]
      rintro rfl
      exact fresh member
    case begun =>
      rcases mem_append.mp member with old | this
      · exact kept.begun.2 entry old
      · rw [mem_singleton.mp this]
        refine mem_editsAt.mp ?_
        rw [all]
        exact mem_append_right _ mem_cons_self

/-! ### Runs -/

theorem Kept.open_last {history : EditHistory κ} (kept : Kept history) {path : String}
    {edit : DeferredEdit κ} (begun : edit ∈ editsAt path history.started)
    (running : edit.call.callId ∉ history.completed) :
    ∃ queue done, history.schedule.paths path = some queue ∧ queue.activeCallId = edit.call.callId ∧
      editsAt path history.started = done ++ [edit] ∧
      editsAt path history.submitted = done ++ [edit] ++ queue.waiting := by
  cases found : history.schedule.paths path with
  | none => exact absurd ((kept.quiet found).2 edit begun) running
  | some queue =>
    obtain ⟨done, active, started, all, same, -, ended⟩ := kept.running found
    have last : edit = active := by
      rw [started] at begun
      rcases mem_append.mp begun with old | this
      · exact absurd (ended edit old) running
      · exact mem_singleton.mp this
    subst last
    exact ⟨queue, done, rfl, same.symm, started, all⟩

theorem Kept.inOrder {history : EditHistory κ} (kept : Kept history) : InOrder history where
  single path first begun second begun' running running' := by
    obtain ⟨_, done, _, _, started, _⟩ := kept.open_last begun running
    obtain ⟨_, done', _, _, started', _⟩ := kept.open_last begun' running'
    rw [started] at started'
    exact singleton_inj.mp (append_inj' started' rfl).2
  order path := by
    cases found : history.schedule.paths path with
    | none =>
      exact (kept.quiet found).1 ▸ prefix_refl _
    | some queue =>
      obtain ⟨done, active, started, all, -⟩ := kept.running found
      rw [started, all]
      exact prefix_append _ _
  once := kept.begun.1
  served path waits := by
    cases found : history.schedule.paths path with
    | none => exact absurd (kept.quiet found).1.symm waits
    | some queue =>
      obtain ⟨done, active, started, -, -, running, -⟩ := kept.running found
      refine ⟨active, ?_, running⟩
      rw [started]
      exact mem_append_right _ (mem_singleton_self active)

theorem Kept.completes {history : EditHistory κ} (kept : Kept history) (callId : String) :
    history.Completes callId where
  idle finished := by
    cases kept.completion callId with
    | idle _ same => exact same
    | last active found =>
      obtain ⟨done, edit, begun, -, same, running, -⟩ := kept.running found
      have completed := finished (kept.active_started found)
      rw [same] at running
      exact absurd completed running
    | next active found =>
      obtain ⟨done, edit, begun, -, same, running, -⟩ := kept.running found
      have completed := finished (kept.active_started found)
      rw [same] at running
      exact absurd completed running
  next path edit begun same running := by
    subst same
    obtain ⟨queue, done, found, active, started, all⟩ := kept.open_last (mem_editsAt.mpr begun) running
    have here := (kept.active _ path).mpr ⟨queue, found, active⟩
    cases kept.completion edit.call.callId with
    | idle inactive =>
      rw [here] at inactive
      cases inactive
    | last active' found' ends =>
      rw [here] at active'
      obtain rfl := Option.some.inj active'
      rw [found] at found'
      obtain rfl := Option.some.inj found'
      refine ⟨?_, ?_⟩
      · rw [ends, all, started]
        simp
      · have after : (history.complete edit.call.callId).started = history.started := by
          simp [complete, starts, here, ends]
        rw [after, all, started, append_nil, take_of_length_le (Nat.le_succ _)]
    | @next _ next waiting active' found' goes =>
      rw [here] at active'
      obtain rfl := Option.some.inj active'
      rw [found] at found'
      obtain rfl := Option.some.inj found'
      refine ⟨?_, ?_⟩
      · rw [goes, all, started]
        simp
      · have after : (history.complete edit.call.callId).started = history.started ++ [(path, next)] := by
          simp [complete, starts, here, goes]
        rw [after, editsAt_append, editsAt_same, all, started, take_append,
          take_of_length_le (Nat.le_succ _), Nat.add_sub_cancel_left]
        rfl

/-- **Edits of one key never overlap.** In every run each key has at most one edit that started and is not
completed, its edits start in the order in which they were submitted, none twice and none left behind,
and a completion starts the next one or changes nothing. -/
theorem reachable_inOrder {history : EditHistory κ} (reachable : system.Reachable history) :
    history.InOrder ∧ ∀ callId, history.Completes callId := by
  have kept : Kept history := by
    refine System.reachable_invariant (fun start starts => ?_) (fun before label after kept step => ?_)
      reachable
    · rw [starts]
      exact empty_kept
    · cases label with
      | submit path edit =>
        obtain ⟨fresh, rfl⟩ := step
        exact submit_kept kept fresh
      | complete callId =>
        obtain rfl := step
        exact complete_kept kept callId
  exact ⟨kept.inOrder, kept.completes⟩

end EditHistory

end Byok
