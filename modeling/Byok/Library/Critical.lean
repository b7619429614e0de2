/-
**Critical sections.**

Tasks change one value. A task takes a lock, reads the value, computes a change from what it read, and stores the change
some time later. Every step but the store may fail, and the store too.

* `Exclusive`, `run_exclusive` — only the holder of the lock is inside, and what it is about to store was computed from
  the value as it is.
* `run_value` — the value is what the changes that were stored make in the order of their stores.
* `run_log` — these are the changes of the tasks that succeeded, each once.
-/

import Mathlib.Data.List.Induction
import Mathlib.Data.List.Perm.Basic
import Mathlib.Tactic.Common

namespace Byok.Library

open List

/-- What operations compute from a value, and how a result is stored in it. -/
structure Modifier (σ op δ ε : Type) where
  compute : op → σ → Except ε δ
  store : δ → σ → σ

/-- Where a task is. -/
inductive Stage (δ : Type) where
  | waiting
  | holding
  | writing (change : δ)
  | done (succeeded : Bool)
deriving DecidableEq, Repr

namespace Stage

variable {δ : Type}

def inside : Stage δ → Bool
  | .holding | .writing _ => true
  | _ => false

end Stage

/-- A value with its lock and its tasks. `log` holds the operations whose changes were stored. -/
structure Guarded (σ op δ : Type) where
  value : σ
  holder : Option Nat
  tasks : List (op × Stage δ)
  log : List op
deriving DecidableEq, Repr

/-- What happens to a value. -/
inductive TaskAct (op : Type) where
  | call (operation : op)
  | lock (index : Nat)
  | read (index : Nat) (succeeds : Bool)
  | write (index : Nat) (succeeds : Bool)
deriving DecidableEq, Repr

namespace TaskAct

variable {op : Type}

/-- The task whose step it is. -/
def index? : TaskAct op → Option Nat
  | .call _ => none
  | .lock index | .read index _ | .write index _ => some index

def called : TaskAct op → List op
  | .call operation => [operation]
  | _ => []

end TaskAct

namespace Modifier

variable {σ op δ ε : Type} (modifier : Modifier σ op δ ε)

/-- A task leaves the critical section. -/
def leave (guarded : Guarded σ op δ) (index : Nat) (operation : op) (succeeded : Bool) :
    Guarded σ op δ :=
  { guarded with holder := none, tasks := guarded.tasks.set index (operation, .done succeeded) }

/-- One step. -/
def act (guarded : Guarded σ op δ) : TaskAct op → Guarded σ op δ
  | .call operation => { guarded with tasks := guarded.tasks ++ [(operation, .waiting)] }
  | .lock index =>
    match guarded.holder, guarded.tasks[index]? with
    | none, some (operation, .waiting) =>
      { guarded with holder := some index, tasks := guarded.tasks.set index (operation, .holding) }
    | _, _ => guarded
  | .read index succeeds =>
    match guarded.tasks[index]? with
    | some (operation, .holding) =>
      match succeeds, modifier.compute operation guarded.value with
      | true, .ok change => { guarded with tasks := guarded.tasks.set index (operation, .writing change) }
      | _, _ => leave guarded index operation false
    | _ => guarded
  | .write index succeeds =>
    match guarded.tasks[index]? with
    | some (operation, .writing change) =>
      if succeeds then
        { leave guarded index operation true with
          value := modifier.store change guarded.value, log := guarded.log ++ [operation] }
      else leave guarded index operation false
    | _ => guarded

/-- A run. -/
def run (start : σ) (acts : List (TaskAct op)) : Guarded σ op δ := acts.foldl modifier.act ⟨start, none, [], []⟩

theorem run_concat (start : σ) (acts : List (TaskAct op)) (last : TaskAct op) :
    modifier.run start (acts ++ [last]) = modifier.act (modifier.run start acts) last := by
  rw [run, foldl_append]
  rfl

/-! ### What a step can do -/

/-- The steps that do something. -/
inductive Moves (guarded : Guarded σ op δ) : TaskAct op → Guarded σ op δ → Prop
  | call (operation : op) :
    Moves guarded (.call operation) { guarded with tasks := guarded.tasks ++ [(operation, .waiting)] }
  | lock {index : Nat} {operation : op} (free : guarded.holder = none)
    (at_ : guarded.tasks[index]? = some (operation, .waiting)) :
    Moves guarded (.lock index)
      { guarded with holder := some index, tasks := guarded.tasks.set index (operation, .holding) }
  | read {index : Nat} {operation : op} {change : δ}
    (at_ : guarded.tasks[index]? = some (operation, .holding))
    (computed : modifier.compute operation guarded.value = .ok change) :
    Moves guarded (.read index true) { guarded with tasks := guarded.tasks.set index (operation, .writing change) }
  | fail {act : TaskAct op} {index : Nat} {operation : op} {stage : Stage δ}
    (whose : act.index? = some index) (at_ : guarded.tasks[index]? = some (operation, stage))
    (inside : stage.inside = true) : Moves guarded act (leave guarded index operation false)
  | write {index : Nat} {operation : op} {change : δ}
    (at_ : guarded.tasks[index]? = some (operation, .writing change)) :
    Moves guarded (.write index true)
      { leave guarded index operation true with
        value := modifier.store change guarded.value, log := guarded.log ++ [operation] }

theorem act_moves (guarded : Guarded σ op δ) (act : TaskAct op) :
    modifier.Moves guarded act (modifier.act guarded act) ∨ act.called = [] ∧ modifier.act guarded act = guarded := by
  cases act with
  | call operation => exact .inl (.call operation)
  | lock index =>
    unfold Modifier.act
    dsimp only
    split
    · exact .inl (.lock ‹_› ‹_›)
    · exact .inr ⟨rfl, rfl⟩
  | read index succeeds =>
    unfold Modifier.act
    dsimp only
    split
    · split
      · exact .inl (.read ‹_› ‹_›)
      · exact .inl (.fail rfl ‹_› rfl)
    · exact .inr ⟨rfl, rfl⟩
  | write index succeeds =>
    unfold Modifier.act
    dsimp only
    split
    · cases succeeds with
      | true => exact .inl (.write ‹_›)
      | false => exact .inl (.fail rfl ‹_› rfl)
    · exact .inr ⟨rfl, rfl⟩

/-! ### The invariant -/

variable {modifier}

/-- Only the holder is inside, and what is about to be stored was computed from the value as it is. -/
structure Exclusive (modifier : Modifier σ op δ ε) (guarded : Guarded σ op δ) : Prop where
  inside : ∀ (index : Nat) (operation : op) (stage : Stage δ), guarded.tasks[index]? = some (operation, stage) →
    stage.inside = true → guarded.holder = some index
  computed : ∀ (index : Nat) (operation : op) (change : δ), guarded.tasks[index]? = some (operation, .writing change) →
    modifier.compute operation guarded.value = .ok change

theorem getElem?_set_cases {α : Type} {list : List α} {index other : Nat} {new found : α}
    (at_ : (list.set index new)[other]? = some found) : other = index ∧ found = new ∨
      other ≠ index ∧ list[other]? = some found := by
  by_cases same : index = other
  · subst same
    rw [getElem?_set_self'] at at_
    obtain ⟨_, -, rfl⟩ := Option.map_eq_some_iff.mp at_
    exact .inl ⟨rfl, rfl⟩
  · rw [getElem?_set_ne same] at at_
    exact .inr ⟨Ne.symm same, at_⟩

variable {guarded after : Guarded σ op δ}

theorem Exclusive.alone (exclusive : Exclusive modifier guarded) {index other : Nat} {operation next : op}
    {stage there : Stage δ} (at_ : guarded.tasks[index]? = some (operation, stage)) (inside : stage.inside = true)
    (found : guarded.tasks[other]? = some (next, there)) (distinct : other ≠ index) : there.inside = false := by
  cases outside : there.inside with
  | false => rfl
  | true =>
    have holds := exclusive.inside index operation stage at_ inside
    rw [exclusive.inside other next there found outside] at holds
    exact absurd (Option.some.inj holds) distinct

theorem Exclusive.leave (exclusive : Exclusive modifier guarded) {index : Nat} {operation : op} {stage : Stage δ}
    (at_ : guarded.tasks[index]? = some (operation, stage)) (inside : stage.inside = true) (succeeded : Bool)
    (value : σ) (log : List op) :
    Exclusive modifier { leave guarded index operation succeeded with value := value, log := log } where
  inside other next there found within := by
    rcases getElem?_set_cases found with ⟨-, same⟩ | ⟨distinct, found⟩
    · rw [(Prod.mk.inj same).2] at within
      cases within
    · exact absurd (exclusive.alone at_ inside found distinct) (by simp [within])
  computed other next change found := by
    rcases getElem?_set_cases found with ⟨-, same⟩ | ⟨distinct, found⟩
    · exact absurd (Prod.mk.inj same).2 nofun
    · exact absurd (exclusive.alone at_ inside found distinct) nofun

/-- **What a step keeps.** -/
theorem Exclusive.moves (exclusive : Exclusive modifier guarded) {act : TaskAct op}
    (moves : modifier.Moves guarded act after) : Exclusive modifier after := by
  cases moves with
  | call operation =>
    have old {index : Nat} {next : op} {there : Stage δ}
        (found : (guarded.tasks ++ [(operation, .waiting)])[index]? = some (next, there)) (started : there ≠ .waiting) :
        guarded.tasks[index]? = some (next, there) := by
      rw [getElem?_append] at found
      split_ifs at found
      · exact found
      · have same := mem_singleton.mp (mem_of_getElem? found)
        exact absurd (Prod.mk.inj same).2 started
    refine ⟨fun index next there found within => ?_,
      fun index next change found => exclusive.computed index next change (old found nofun)⟩
    refine exclusive.inside index next there (old found ?_) within
    rintro rfl
    cases within
  | lock free at_ =>
    refine ⟨fun other next there found within => ?_, fun other next change found => ?_⟩
    · rcases getElem?_set_cases found with ⟨rfl, -⟩ | ⟨-, found⟩
      · rfl
      · rw [exclusive.inside other next there found within] at free
        exact absurd free nofun
    · rcases getElem?_set_cases found with ⟨-, same⟩ | ⟨-, found⟩
      · exact absurd (Prod.mk.inj same).2 nofun
      · exact exclusive.computed other next change found
  | read at_ computed =>
    refine ⟨fun other next there found within => ?_, fun other next change found => ?_⟩
    · rcases getElem?_set_cases found with ⟨rfl, -⟩ | ⟨-, found⟩
      · exact exclusive.inside other _ _ at_ rfl
      · exact exclusive.inside other next there found within
    · rcases getElem?_set_cases found with ⟨rfl, same⟩ | ⟨-, found⟩
      · cases same
        exact computed
      · exact exclusive.computed other next change found
  | fail whose at_ inside => exact exclusive.leave at_ inside false _ _
  | write at_ => exact exclusive.leave at_ rfl true _ _

theorem run_exclusive (start : σ) (acts : List (TaskAct op)) : Exclusive modifier (modifier.run start acts) := by
  induction acts using List.reverseRecOn with
  | nil => exact ⟨nofun, nofun⟩
  | append_singleton acts last ih =>
    rw [run_concat]
    rcases modifier.act_moves (modifier.run start acts) last with moves | ⟨-, same⟩
    · exact ih.moves moves
    · rw [same]
      exact ih

/-! ### The order of the stores -/

variable (modifier) in
/-- What the operations make of a value, one after the other. -/
def replay (start : σ) (log : List op) : σ :=
  log.foldl (fun value operation =>
    match modifier.compute operation value with
    | .ok change => modifier.store change value
    | .error _ => value) start

theorem replay_concat (start : σ) (log : List op) {last : op} {change : δ}
    (computed : modifier.compute last (modifier.replay start log) = .ok change) :
    modifier.replay start (log ++ [last]) = modifier.store change (modifier.replay start log) := by
  rw [replay, foldl_append, foldl_cons, foldl_nil]
  show (match modifier.compute last (modifier.replay start log) with | .ok change => _ | .error _ => _) = _
  rw [computed]
  rfl

variable (modifier) in
/-- Operations that all succeed, one after the other. -/
inductive Serial (start : σ) : List op → Prop
  | nil : Serial start []
  | snoc {log : List op} {last : op} {change : δ} (serial : Serial start log)
      (computed : modifier.compute last (modifier.replay start log) = .ok change) : Serial start (log ++ [last])

/-- **No update is lost.** The value is what the stored changes make, each computed from those before it. -/
theorem run_value (start : σ) (acts : List (TaskAct op)) :
    (modifier.run start acts).value = modifier.replay start (modifier.run start acts).log ∧
      modifier.Serial start (modifier.run start acts).log := by
  induction acts using List.reverseRecOn with
  | nil => exact ⟨rfl, .nil⟩
  | append_singleton acts last ih =>
    rw [run_concat]
    have exclusive := @run_exclusive _ _ _ _ modifier start acts
    rcases modifier.act_moves (modifier.run start acts) last with moves | ⟨-, same⟩
    · generalize modifier.act (modifier.run start acts) last = after at moves
      cases moves with
      | @write index operation change at_ =>
        have computed := exclusive.computed index operation change at_
        rw [ih.1] at computed
        refine ⟨?_, ih.2.snoc computed⟩
        show modifier.store change (modifier.run start acts).value = _
        rw [ih.1]
        exact (replay_concat start _ computed).symm
      | _ => exact ih
    · rw [same]
      exact ih

theorem value_write {index : Nat} {operation : op} {change : δ}
    (at_ : guarded.tasks[index]? = some (operation, .writing change)) :
    (modifier.act guarded (.write index true)).value = modifier.store change guarded.value := by
  simp only [Modifier.act, at_, if_true]

theorem log_grows (start : σ) (before after : List (TaskAct op)) :
    (modifier.run start before).log <+: (modifier.run start (before ++ after)).log := by
  induction after using List.reverseRecOn with
  | nil => exact (append_nil before).symm ▸ prefix_refl _
  | append_singleton after last ih =>
    rw [← append_assoc, run_concat]
    rcases modifier.act_moves (modifier.run start (before ++ after)) last with moves | ⟨-, same⟩
    · generalize modifier.act (modifier.run start (before ++ after)) last = next at moves
      cases moves with
      | write at_ => exact ih.trans (prefix_append _ _)
      | _ => exact ih
    · rw [same]
      exact ih

theorem exists_log {start : σ} {acts : List (TaskAct op)} {log : List op}
    (first : log <+: (modifier.run start acts).log) :
    ∃ before after, acts = before ++ after ∧ (modifier.run start before).log = log := by
  induction acts using List.reverseRecOn with
  | nil => exact ⟨[], [], rfl, (prefix_nil.mp first).symm⟩
  | append_singleton acts last ih =>
    have shorter (within : log <+: (modifier.run start acts).log) :
        ∃ before after, acts ++ [last] = before ++ after ∧ (modifier.run start before).log = log := by
      obtain ⟨before, after, rfl, same⟩ := ih within
      exact ⟨before, after ++ [last], append_assoc _ _ _, same⟩
    rcases modifier.act_moves (modifier.run start acts) last with moves | ⟨-, same⟩
    · rw [run_concat] at first
      generalize reached : modifier.act (modifier.run start acts) last = after at moves first
      cases moves with
      | @write index operation change at_ =>
        rcases prefix_concat_iff.mp first with same | within
        · refine ⟨acts ++ [.write index true], [], (append_nil _).symm, ?_⟩
          rw [run_concat, reached]
          exact same.symm
        · exact shorter within
      | _ => exact shorter first
    · rw [run_concat, same] at first
      exact shorter first

/-! ### The tasks -/

theorem Moves.tasks {act : TaskAct op} (moves : modifier.Moves guarded act after) :
    (∃ operation, act = .call operation ∧ after.tasks = guarded.tasks ++ [(operation, .waiting)]) ∨
      act.called = [] ∧ ∃ (index : Nat) (operation : op) (old new : Stage δ),
        guarded.tasks[index]? = some (operation, old) ∧ (∀ outcome, old ≠ .done outcome) ∧
          after.tasks = guarded.tasks.set index (operation, new) := by
  cases moves with
  | call operation => exact .inl ⟨operation, rfl, rfl⟩
  | lock free at_ => exact .inr ⟨rfl, _, _, _, _, at_, nofun, rfl⟩
  | read at_ computed => exact .inr ⟨rfl, _, _, _, _, at_, nofun, rfl⟩
  | fail whose at_ inside =>
    refine .inr ⟨?_, _, _, _, _, at_, ?_, rfl⟩
    · cases act with
      | call => cases whose
      | _ => rfl
    · rintro outcome rfl
      cases inside
  | write at_ => exact .inr ⟨rfl, _, _, _, _, at_, nofun, rfl⟩

theorem map_fst_set {α β : Type} {list : List (α × β)} {index : Nat} {operation : α} {old new : β}
    (at_ : list[index]? = some (operation, old)) :
    (list.set index (operation, new)).map Prod.fst = list.map Prod.fst := by
  apply ext_getElem?
  intro other
  rw [getElem?_map, getElem?_map]
  by_cases same : index = other
  · subst same
    rw [getElem?_set_self', at_]
    rfl
  · rw [getElem?_set_ne same]

/-- The operation of a task that succeeded. -/
def succeeded : op × Stage δ → Option op
  | (operation, .done true) => some operation
  | _ => none

theorem filterMap_set {list : List (op × Stage δ)} {index : Nat} {old new : op × Stage δ}
    (at_ : list[index]? = some old) (unfinished : succeeded old = none) :
    ((list.set index new).filterMap succeeded).Perm (list.filterMap succeeded ++ (succeeded new).toList) := by
  induction list generalizing index with
  | nil => exact absurd at_ (by simp)
  | cons first rest ih =>
    cases index with
    | zero =>
      obtain rfl := Option.some.inj at_
      rw [set_cons_zero, filterMap_cons, filterMap_cons, unfinished]
      cases succeeded new with
      | none => simp
      | some operation => exact (perm_append_singleton operation _).symm
    | succ index =>
      rw [getElem?_cons_succ] at at_
      rw [set_cons_succ, filterMap_cons, filterMap_cons]
      cases succeeded first with
      | none => exact ih at_
      | some operation => exact (ih at_).cons operation

theorem run_log (start : σ) (acts : List (TaskAct op)) :
    ((modifier.run start acts).tasks.filterMap succeeded).Perm (modifier.run start acts).log := by
  induction acts using List.reverseRecOn with
  | nil => exact .refl _
  | append_singleton acts last ih =>
    rw [run_concat]
    rcases modifier.act_moves (modifier.run start acts) last with moves | ⟨-, same⟩
    · generalize modifier.act (modifier.run start acts) last = after at moves
      have unlogged {index : Nat} {old new : op × Stage δ} (at_ : (modifier.run start acts).tasks[index]? = some old)
          (unfinished : succeeded old = none) (pending : succeeded new = none) :
          (((modifier.run start acts).tasks.set index new).filterMap succeeded).Perm (modifier.run start acts).log := by
        have moved := @filterMap_set _ _ _ _ _ new at_ unfinished
        rw [pending, Option.toList_none, append_nil] at moved
        exact moved.trans ih
      cases moves with
      | call operation =>
        rw [filterMap_append]
        exact (append_nil _).symm ▸ ih
      | lock free at_ => exact unlogged at_ rfl rfl
      | read at_ computed => exact unlogged at_ rfl rfl
      | @fail _ index operation stage whose at_ inside =>
        refine unlogged at_ ?_ rfl
        cases stage with
        | done => cases inside
        | _ => rfl
      | write at_ => exact (filterMap_set at_ rfl).trans (ih.append_right _)
    · rw [same]
      exact ih

theorem run_called (start : σ) (acts : List (TaskAct op)) :
    (modifier.run start acts).tasks.map Prod.fst = acts.flatMap TaskAct.called := by
  induction acts using List.reverseRecOn with
  | nil => rfl
  | append_singleton acts last ih =>
    rw [run_concat, flatMap_append, ← ih, flatMap_singleton]
    rcases modifier.act_moves (modifier.run start acts) last with moves | ⟨uncalled, same⟩
    · rcases moves.tasks with ⟨operation, rfl, tasks⟩ | ⟨uncalled, index, operation, old, new, at_, -, tasks⟩
      · rw [tasks, map_append]
        rfl
      · rw [tasks, map_fst_set at_, uncalled, append_nil]
    · rw [same, uncalled, append_nil]

theorem succeeded_sublist (tasks : List (op × Stage δ)) : (tasks.filterMap succeeded).Sublist (tasks.map Prod.fst) := by
  induction tasks with
  | nil => exact .slnil
  | cons task tasks ih =>
    rw [filterMap_cons, map_cons]
    obtain ⟨operation, stage⟩ := task
    cases stage with
    | done outcome =>
      cases outcome with
      | true => exact ih.cons_cons operation
      | false => exact ih.cons operation
    | _ => exact ih.cons operation

theorem done_stays {start : σ} {before : List (TaskAct op)} {index : Nat} {operation : op} {outcome : Bool}
    (done : (modifier.run start before).tasks[index]? = some (operation, .done outcome)) (more : List (TaskAct op)) :
    (modifier.run start (before ++ more)).tasks[index]? = some (operation, .done outcome) := by
  induction more using List.reverseRecOn with
  | nil => rwa [append_nil]
  | append_singleton more last ih =>
    rw [← append_assoc, run_concat]
    rcases modifier.act_moves (modifier.run start (before ++ more)) last with moves | ⟨-, same⟩
    · rcases moves.tasks with ⟨next, -, tasks⟩ | ⟨-, other, next, old, new, at_, unfinished, tasks⟩
      · rw [tasks, List.getElem?_append_left (List.getElem?_eq_some_iff.mp ih).1, ih]
      · have distinct : other ≠ index := by
          rintro rfl
          rw [ih] at at_
          cases at_
          exact unfinished outcome rfl
        rw [tasks, getElem?_set_ne distinct, ih]
    · rw [same]
      exact ih

theorem failed_keeps {start : σ} {before after : List (TaskAct op)} {act : TaskAct op} {index : Nat} {operation : op}
    (whose : act.index? = some index)
    (failed : (modifier.run start (before ++ act :: after)).tasks[index]? = some (operation, .done false)) :
    (modifier.run start (before ++ [act])).value = (modifier.run start before).value := by
  have split : before ++ act :: after = before ++ [act] ++ after := by simp
  rw [run_concat]
  rcases modifier.act_moves (modifier.run start before) act with moves | ⟨-, same⟩
  · generalize reached : modifier.act (modifier.run start before) act = next at moves
    cases moves with
    | @write other task change at_ =>
      obtain rfl := Option.some.inj whose
      have done : (modifier.run start (before ++ [.write other true])).tasks[other]? = some (task, .done true) := by
        rw [run_concat, reached]
        exact List.getElem?_set_self (List.getElem?_eq_some_iff.mp at_).1
      have stays := done_stays done after
      rw [← split, failed] at stays
      cases stays
    | _ => rfl
  · rw [same]

end Modifier

end Byok.Library
