/-
**Searches and fetches without an entry.** `track_detached` and `cancel_detached` of
`server/src/cursor/tools/runtime.rs`.

A search or fetch that was approved runs on its own. It is registered by its call id, the guard of the registration takes
it out again, and the operations that stop a run cancel what is registered. All runtimes of a conversation share one map.

* `Detachments` — the map, the guards that are alive, and the tokens that are cancelled.
* `stops_reach_all` — while no two guards of one call id wait for a stop, a stop reaches every guard that is alive.
* `late_drop_unregisters` — a guard that outlives its stop takes the registration of a later one away.
-/

import Byok.Library.System
import Mathlib.Data.List.Nodup

namespace Byok.Cursor.Tools

open Library List

/-- `DetachedCancellation`. The token is its number. -/
structure DetachedCancellation where
  callId : String
  token : Nat
deriving DecidableEq, Repr

/-- The operations that stop a run, each of which begins with `cancel_detached`. -/
inductive StopOperation where
  | drainRunning
  | interruptForRunReplacement
  | interruptForMessage
deriving DecidableEq, Repr

/-- What happens: a task is registered, its guard is dropped, a run is stopped, or `next_run`. -/
inductive DetachedOperation where
  | trackDetached (runtime : Nat) (callId : String)
  | drop (guard : DetachedCancellation)
  | stop (runtime : Nat) (operation : StopOperation)
  | nextRun
deriving DecidableEq, Repr

/-- The runtimes of a conversation, as far as detached tasks go: `detached` is the map that they share, `guards` are those
that are alive, `tokens` counts the tokens made. -/
structure Detachments where
  runtimes : Nat
  detached : List (String × Nat)
  guards : List DetachedCancellation
  cancelled : List Nat
  tokens : Nat
deriving DecidableEq, Repr

namespace Detachments

/-- The first runtime of a conversation. -/
def fresh : Detachments := ⟨1, [], [], [], 0⟩

def remove (detached : List (String × Nat)) (callId : String) : List (String × Nat) :=
  detached.filter fun entry => entry.1 != callId

def trackDetached (state : Detachments) (callId : String) : Detachments where
  runtimes := state.runtimes
  detached := (callId, state.tokens) :: remove state.detached callId
  guards := ⟨callId, state.tokens⟩ :: state.guards
  cancelled := state.cancelled
  tokens := state.tokens + 1

def drop (state : Detachments) (guard : DetachedCancellation) : Detachments :=
  { state with detached := remove state.detached guard.callId, guards := state.guards.erase guard }

def cancelDetached (state : Detachments) : Detachments :=
  { state with detached := [], cancelled := state.cancelled ++ state.detached.map Prod.snd }

/-- The steps. -/
inductive Step (state : Detachments) : DetachedOperation → Detachments → Prop
  | trackDetached {runtime : Nat} (there : runtime < state.runtimes) (callId : String) :
    Step state (.trackDetached runtime callId) (state.trackDetached callId)
  | drop {guard : DetachedCancellation} (alive : guard ∈ state.guards) : Step state (.drop guard) (state.drop guard)
  | stop {runtime : Nat} (there : runtime < state.runtimes) (operation : StopOperation) :
    Step state (.stop runtime operation) state.cancelDetached
  | nextRun : Step state .nextRun { state with runtimes := state.runtimes + 1 }

/-- The detached tasks of a conversation. -/
def system : System Detachments DetachedOperation where
  initial state := state = fresh
  step := Step

/-- A guard that is alive and was not stopped. -/
def Waiting (state : Detachments) (guard : DetachedCancellation) : Prop :=
  guard ∈ state.guards ∧ guard.token ∉ state.cancelled

/-- No other guard of the call id waits, when one is registered or dropped. -/
def Alone (state : Detachments) : DetachedOperation → Prop
  | .trackDetached _ callId => ∀ other, state.Waiting other → other.callId ≠ callId
  | .drop guard => ∀ other, state.Waiting other → other ≠ guard → other.callId ≠ guard.callId
  | .stop _ _ | .nextRun => True

theorem mem_remove {detached : List (String × Nat)} {callId : String} {entry : String × Nat} :
    entry ∈ remove detached callId ↔ entry ∈ detached ∧ entry.1 ≠ callId := by
  simp [remove]

/-! ### What holds in every run -/

/-- Tokens are made once. -/
structure Numbered (state : Detachments) : Prop where
  guards : ∀ guard ∈ state.guards, guard.token < state.tokens
  detached : ∀ entry ∈ state.detached, entry.2 < state.tokens
  cancelled : ∀ token ∈ state.cancelled, token < state.tokens
  distinct : (state.guards.map DetachedCancellation.token).Nodup

theorem Numbered.step {state next : Detachments} {operation : DetachedOperation} (numbered : state.Numbered)
    (step : Step state operation next) : next.Numbered := by
  cases step with
  | trackDetached there callId =>
    refine ⟨?_, ?_, fun token done => Nat.lt_succ_of_lt (numbered.cancelled token done), ?_⟩
    · rintro guard (_ | ⟨_, old⟩)
      · exact Nat.lt_succ_self _
      · exact Nat.lt_succ_of_lt (numbered.guards guard old)
    · rintro entry (_ | ⟨_, old⟩)
      · exact Nat.lt_succ_self _
      · exact Nat.lt_succ_of_lt (numbered.detached entry (mem_remove.mp old).1)
    · refine nodup_cons.mpr ⟨fun used => ?_, numbered.distinct⟩
      obtain ⟨guard, old, same⟩ := mem_map.mp used
      exact Nat.ne_of_lt (numbered.guards guard old) same
  | drop alive =>
    exact ⟨fun guard there => numbered.guards guard (mem_of_mem_erase there),
      fun entry there => numbered.detached entry (mem_remove.mp there).1, numbered.cancelled,
      numbered.distinct.sublist (erase_sublist.map _)⟩
  | stop there operation =>
    refine ⟨numbered.guards, fun _ none => absurd none not_mem_nil, fun token done => ?_, numbered.distinct⟩
    rcases mem_append.mp done with old | new
    · exact numbered.cancelled token old
    · obtain ⟨entry, there, rfl⟩ := mem_map.mp new
      exact numbered.detached entry there
  | nextRun => exact ⟨numbered.guards, numbered.detached, numbered.cancelled, numbered.distinct⟩

theorem numbered_fresh : fresh.Numbered :=
  ⟨fun _ none => absurd none not_mem_nil, fun _ none => absurd none not_mem_nil,
    fun _ none => absurd none not_mem_nil, nodup_nil⟩

theorem Step.cancelled {state next : Detachments} {operation : DetachedOperation} (step : Step state operation next)
    (running : ∀ runtime how, operation ≠ .stop runtime how) : next.cancelled = state.cancelled := by
  cases step with
  | stop there how => exact absurd rfl (running _ how)
  | _ => rfl

theorem run_cancelled {state last : Detachments} {operations : List DetachedOperation}
    (run : system.Run state operations last)
    (running : ∀ runtime how, .stop runtime how ∉ operations) : last.cancelled = state.cancelled := by
  induction run with
  | nil => rfl
  | snoc _ step ih =>
    rw [Step.cancelled step fun runtime how equal => running runtime how (by simp [equal]),
      ih fun runtime how there => running runtime how (mem_append_left _ there)]

/-! ### What is registered -/

/-- What is registered are the guards that wait for a stop. -/
def Registered (state : Detachments) : Prop :=
  ∀ entry, entry ∈ state.detached ↔ ∃ guard, state.Waiting guard ∧ entry = (guard.callId, guard.token)

theorem Numbered.same {state : Detachments} (numbered : state.Numbered) {first second : DetachedCancellation}
    (there : first ∈ state.guards) (there' : second ∈ state.guards) (same : first.token = second.token) :
    first = second :=
  inj_on_of_nodup_map numbered.distinct there there' same

theorem Registered.step {state next : Detachments} {operation : DetachedOperation} (registered : state.Registered)
    (numbered : state.Numbered) (step : Step state operation next) (alone : state.Alone operation) : next.Registered := by
  cases step with
  | trackDetached there callId =>
    have unused : state.tokens ∉ state.cancelled := fun done => Nat.lt_irrefl _ (numbered.cancelled _ done)
    intro entry
    show entry ∈ (callId, state.tokens) :: remove state.detached callId ↔ _
    rw [mem_cons, mem_remove, registered]
    constructor
    · rintro (rfl | ⟨⟨guard, waiting, rfl⟩, -⟩)
      · exact ⟨_, ⟨mem_cons_self, unused⟩, rfl⟩
      · exact ⟨guard, ⟨mem_cons_of_mem _ waiting.1, waiting.2⟩, rfl⟩
    · rintro ⟨guard, ⟨_ | ⟨_, old⟩, waits⟩, rfl⟩
      · exact .inl rfl
      · exact .inr ⟨⟨guard, ⟨old, waits⟩, rfl⟩, alone guard ⟨old, waits⟩⟩
  | @drop guard alive =>
    intro entry
    show entry ∈ remove state.detached guard.callId ↔ _
    rw [mem_remove, registered]
    constructor
    · rintro ⟨⟨other, waiting, rfl⟩, differs⟩
      refine ⟨other, ⟨?_, waiting.2⟩, rfl⟩
      refine (mem_erase_of_ne ?_).mpr waiting.1
      rintro rfl
      exact differs rfl
    · rintro ⟨other, ⟨there, waits⟩, rfl⟩
      have old := mem_of_mem_erase there
      have differs : other ≠ guard := by
        rintro rfl
        exact numbered.distinct.of_map.not_mem_erase there
      exact ⟨⟨other, ⟨old, waits⟩, rfl⟩, alone other ⟨old, waits⟩ differs⟩
  | stop there operation =>
    intro entry
    refine ⟨fun none => absurd none not_mem_nil, ?_⟩
    rintro ⟨guard, ⟨alive, waits⟩, rfl⟩
    by_cases before : guard.token ∈ state.cancelled
    · exact absurd (mem_append_left _ before) waits
    · exact absurd (mem_append_right _ (mem_map_of_mem ((registered _).mpr ⟨guard, ⟨alive, before⟩, rfl⟩))) waits
  | nextRun => exact registered

theorem registered_fresh : fresh.Registered := by
  intro entry
  refine ⟨fun none => absurd none not_mem_nil, ?_⟩
  rintro ⟨guard, ⟨alive, -⟩, -⟩
  exact absurd alive not_mem_nil

/-! ### Stops -/

theorem Registered.cancelDetached {state : Detachments} (registered : state.Registered) {guard : DetachedCancellation}
    (alive : guard ∈ state.guards) : guard.token ∈ state.cancelDetached.cancelled := by
  by_cases before : guard.token ∈ state.cancelled
  · exact mem_append_left _ before
  · exact mem_append_right _ (mem_map_of_mem ((registered _).mpr ⟨guard, ⟨alive, before⟩, rfl⟩))

theorem missed {state : Detachments} {guard : DetachedCancellation} (waiting : state.Waiting guard)
    (unregistered : ∀ entry ∈ state.detached, entry.2 ≠ guard.token) :
    guard.token ∉ state.cancelDetached.cancelled := by
  intro done
  rcases mem_append.mp done with before | now
  · exact waiting.2 before
  · obtain ⟨entry, there, same⟩ := mem_map.mp now
    exact unregistered entry there same

theorem Registered.unregisters {state next : Detachments} {operation : DetachedOperation} (registered : state.Registered)
    (numbered : state.Numbered) (step : Step state operation next) (beside : ¬ state.Alone operation) :
    ∃ guard ∈ next.guards, guard.token ∉ next.cancelDetached.cancelled := by
  have others {callId : String} {guard : DetachedCancellation} (waiting : state.Waiting guard)
      (same : guard.callId = callId) : ∀ entry ∈ remove state.detached callId, entry.2 ≠ guard.token := by
    intro entry there token
    obtain ⟨old, differs⟩ := mem_remove.mp there
    obtain ⟨other, ⟨alive, -⟩, rfl⟩ := (registered entry).mp old
    exact differs (numbered.same alive waiting.1 token ▸ same)
  cases step with
  | trackDetached there callId =>
    simp only [Alone, not_forall, not_not] at beside
    obtain ⟨guard, waiting, same⟩ := beside
    refine ⟨guard, mem_cons_of_mem _ waiting.1, missed ⟨mem_cons_of_mem _ waiting.1, waiting.2⟩ ?_⟩
    rintro entry (_ | ⟨_, old⟩)
    · exact fun token => Nat.ne_of_lt (numbered.guards guard waiting.1) token.symm
    · exact others waiting same entry old
  | @drop guard alive =>
    simp only [Alone, not_forall, not_not] at beside
    obtain ⟨other, waiting, differs, same⟩ := beside
    have there : other ∈ state.guards.erase guard := (mem_erase_of_ne differs).mpr waiting.1
    exact ⟨other, there, missed ⟨there, waiting.2⟩ (others waiting same)⟩
  | stop => exact absurd trivial beside
  | nextRun => exact absurd trivial beside

theorem aloneRun {state : Detachments} {operations : List DetachedOperation}
    (run : (system.confine fun before operation _ => before.Alone operation).Run fresh operations state) :
    state.Numbered ∧ state.Registered := by
  have kept : ∀ state operation next, state.Numbered ∧ state.Registered →
      Step state operation next ∧ state.Alone operation → next.Numbered ∧ next.Registered :=
    fun _ _ _ holds step => ⟨holds.1.step step.1, holds.2.step holds.1 step.1 step.2⟩
  have holds := System.run_invariant kept ⟨numbered_fresh, registered_fresh⟩ run
  exact holds

/-- **A stop reaches every detached task.** While no guard is registered or dropped beside another one of its call id that
waits for a stop, each stop leaves every guard that is alive cancelled; the first step that is beside one makes the next
stop miss a guard. In every run whatever, a guard is not cancelled before the first stop that follows it. -/
theorem stops_reach_all {operations : List DetachedOperation} {state : Detachments}
    (run : system.Run fresh operations state) :
    ((system.confine fun before operation _ => before.Alone operation).Run fresh operations state →
      (∀ runtime how next, Step state (.stop runtime how) next → ∀ guard ∈ state.guards, guard.token ∈ next.cancelled) ∧
      ∀ operation next, Step state operation next → ¬ state.Alone operation →
        ∃ guard ∈ next.guards, guard.token ∉ next.cancelDetached.cancelled) ∧
    ∀ runtime callId more last, runtime < state.runtimes → system.Run (state.trackDetached callId) more last →
      (∀ runtime how, .stop runtime how ∉ more) → state.tokens ∉ last.cancelled := by
  refine ⟨fun alone => ?_, fun runtime callId more last _ rest running => ?_⟩
  · obtain ⟨numbered, registered⟩ := aloneRun alone
    refine ⟨fun runtime how next step guard alive => ?_, fun operation next step beside => ?_⟩
    · cases step with
      | stop => exact registered.cancelDetached alive
    · exact registered.unregisters numbered step beside
  · have preserved : ∀ before operation after, before.Numbered → system.step before operation after → after.Numbered :=
      fun _ _ _ holds step => holds.step step
    have numbered : state.Numbered := System.run_invariant preserved numbered_fresh run
    rw [run_cancelled rest running]
    exact fun done => Nat.lt_irrefl _ (numbered.cancelled _ done)

/-- A fetch is stopped, its guard is dropped, and the same call is fetched again. -/
def fetchedAgain : Detachments :=
  (((fresh.trackDetached "call").cancelDetached).drop ⟨"call", 0⟩).trackDetached "call"

theorem stops_reach_all_again : 1 ∈ fetchedAgain.cancelDetached.cancelled :=
  have start : (system.confine fun before operation _ => before.Alone operation).Run fresh [] fresh := .nil
  have fetched := start.snoc ⟨@Step.trackDetached _ 0 (by decide) "call", fun _ waiting => absurd waiting.1 not_mem_nil⟩
  have dropped := (fetched.snoc ⟨@Step.stop _ 0 (by decide) .interruptForMessage, trivial⟩).snoc
    ⟨@Step.drop _ ⟨"call", 0⟩ (by decide), fun _ waiting differs => absurd (mem_singleton.mp waiting.1) differs⟩
  have again := dropped.snoc
    ⟨@Step.trackDetached _ 0 (by decide) "call", fun _ waiting => absurd waiting.1 not_mem_nil⟩
  ((stops_reach_all again.unconfine).1 again).1 0 .drainRunning _ (.stop (by decide) _) ⟨"call", 1⟩ (by decide)

/-- The guard of a fetch outlives its stop, the same call is fetched again, and the first guard is dropped: the next stop
misses the fetch that runs. -/
theorem late_drop_unregisters :
    ¬ ∀ operations state, system.Run fresh operations state → ∀ runtime how next, Step state (.stop runtime how) next →
      ∀ guard ∈ state.guards, guard.token ∈ next.cancelled := by
  intro always
  have start : system.Run fresh [] fresh := .nil
  have stopped := (start.snoc (@Step.trackDetached _ 0 (by decide) "call")).snoc
    (@Step.stop _ 0 (by decide) .interruptForMessage)
  have dropped := (stopped.snoc (@Step.trackDetached _ 0 (by decide) "call")).snoc (@Step.drop _ ⟨"call", 0⟩ (by decide))
  have reached := always _ _ dropped 0 .drainRunning _ (.stop (by decide) _) ⟨"call", 1⟩ (by decide)
  exact absurd reached (by decide)

end Detachments

end Byok.Cursor.Tools
