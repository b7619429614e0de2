/-
**Who owns a tool id.**

* `Owned` — an id is in one place at most: about to be inserted, pending in one map of one runtime, or handed out.
* `Halted` — an id that was stopped is interrupted, or gone from every map.
* `ids_owned` — ids are distinct, each is handed out once at most, and none after it was stopped.
* `stopped_then_taken` — a drain of one run lets a Task of another run through that was interrupted.
-/

import Byok.Cursor.Tools.Runtime
import Mathlib.Data.List.Nodup

namespace Byok.Cursor.Tools

open Library List

/-! ### Maps -/

namespace Entries

variable {α : Type} {entries : Entries α} {id : UInt32}

theorem mem_ids_remove {other : UInt32} : other ∈ (entries.remove id).ids ↔ other ∈ entries.ids ∧ other ≠ id := by
  simp only [ids, remove, mem_map, mem_filter, bne_iff_ne]
  constructor
  · rintro ⟨entry, ⟨there, differs⟩, rfl⟩
    exact ⟨⟨entry, there, rfl⟩, differs⟩
  · rintro ⟨⟨entry, there, rfl⟩, differs⟩
    exact ⟨entry, ⟨there, differs⟩, rfl⟩

theorem count_remove_le (other : UInt32) : (entries.remove id).ids.count other ≤ entries.ids.count other :=
  (filter_sublist.map Prod.fst).count_le other

theorem count_insert_le (value : α) (other : UInt32) :
    (entries.insert id value).ids.count other ≤ entries.ids.count other + [id].count other := by
  have le := @count_remove_le _ entries id other
  show (id :: (entries.remove id).ids).count other ≤ _
  rw [count_cons, count_singleton]
  omega

theorem mem_of_get? {value : α} (found : entries.get? id = some value) : id ∈ entries.ids := by
  obtain ⟨entry, there, rfl⟩ := Option.map_eq_some_iff.mp found
  have same : entry.1 = id := by simpa using find?_some there
  exact mem_map.mpr ⟨entry, mem_of_find?_eq_some there, same⟩

end Entries

/-! ### Places of ids -/

/-- The ids that are pending in a runtime. -/
def CursorToolRuntime.places (runtime : CursorToolRuntime) : List UInt32 := runtime.execs.ids ++ runtime.interactions.ids

/-- The id that a section inserts. -/
def Section.inserting : Section → List UInt32
  | insertExec id _ | insertInteraction id _ => [id]
  | _ => []

/-- The ids that are about to be inserted. -/
def Lineage.inserting (lineage : Lineage) : List UInt32 := lineage.flights.flatMap fun flight => flight.sect.inserting

/-- The ids that are about to be inserted or pending. -/
def Lineage.live (lineage : Lineage) : List UInt32 :=
  lineage.inserting ++ lineage.runtimes.flatMap CursorToolRuntime.places

/-- The ids that an interruption by a message has gathered. -/
def Section.gathered : Section → List UInt32
  | messageInteractions _ ids | messageInterrupted _ ids _ => ids
  | _ => []

section Sections

variable (runtime : CursorToolRuntime) (interrupted : List UInt32) (sect : Section)

/-- What a section does to the pending Execs and interactions: it removes some, or inserts one. -/
theorem run_execs_sub : ∀ id, (sect.run runtime interrupted).runtime.execs.ids.count id ≤
    runtime.execs.ids.count id + match sect with | .insertExec inserted _ => [inserted].count id | _ => 0 := by
  intro id
  have filtered (keep : UInt32 × PendingExec → Bool) :
      (Entries.ids (runtime.execs.filter keep)).count id ≤ runtime.execs.ids.count id :=
    (filter_sublist.map Prod.fst).count_le id
  cases sect with
  | insertExec inserted pending => exact Entries.count_insert_le pending id
  | takeExecUnlessInterrupted taken =>
    simp only [Section.run]
    split
    · exact filtered _
    · split
      · exact filtered _
      · exact filtered _
  | takeInteraction taken =>
    simp only [Section.run]
    split
    · exact Nat.le_refl _
    · exact Nat.le_refl _
  | discardExec removed => exact filtered _
  | messageExecs => exact filtered _
  | replacementExecs => exact Nat.zero_le _
  | drainExecs => exact Nat.zero_le _
  | _ => exact Nat.le_refl _

theorem run_interactions_sub : ∀ id, (sect.run runtime interrupted).runtime.interactions.ids.count id ≤
    runtime.interactions.ids.count id + match sect with | .insertInteraction inserted _ => [inserted].count id | _ => 0 := by
  intro id
  have filtered (keep : UInt32 × PendingInteraction → Bool) :
      (Entries.ids (runtime.interactions.filter keep)).count id ≤ runtime.interactions.ids.count id :=
    (filter_sublist.map Prod.fst).count_le id
  cases sect with
  | insertInteraction inserted pending => exact Entries.count_insert_le pending id
  | takeExecUnlessInterrupted taken =>
    simp only [Section.run]
    split
    · exact Nat.le_refl _
    · split
      · exact Nat.le_refl _
      · exact Nat.le_refl _
  | takeInteraction taken =>
    simp only [Section.run]
    split
    · exact filtered _
    · exact filtered _
  | discardInteraction removed => exact filtered _
  | messageInteractions => exact Nat.zero_le _
  | replacementInteractions => exact Nat.zero_le _
  | drainInteractions => exact Nat.zero_le _
  | _ => exact Nat.le_refl _

theorem run_places (id : UInt32) :
    (sect.run runtime interrupted).runtime.places.count id ≤ runtime.places.count id + sect.inserting.count id := by
  have execs := run_execs_sub runtime interrupted sect id
  have interactions := run_interactions_sub runtime interrupted sect id
  simp only [CursorToolRuntime.places, count_append]
  cases sect <;> simp only [Section.inserting, count_nil] at execs interactions ⊢ <;> omega

theorem run_execs {id : UInt32} (there : id ∈ (sect.run runtime interrupted).runtime.execs.ids) :
    id ∈ runtime.execs.ids ∨ id ∈ sect.inserting := by
  have counts := run_execs_sub runtime interrupted sect id
  have positive := count_pos_iff.mpr there
  rw [← count_pos_iff, ← count_pos_iff]
  cases sect <;> simp only [Section.inserting, count_nil] at counts ⊢ <;> omega

theorem run_interactions {id : UInt32} (there : id ∈ (sect.run runtime interrupted).runtime.interactions.ids) :
    id ∈ runtime.interactions.ids ∨ id ∈ sect.inserting := by
  have counts := run_interactions_sub runtime interrupted sect id
  have positive := count_pos_iff.mpr there
  rw [← count_pos_iff, ← count_pos_iff]
  cases sect <;> simp only [Section.inserting, count_nil] at counts ⊢ <;> omega

theorem run_next_inserting : ∀ next ∈ (sect.run runtime interrupted).next, next.inserting = [] := by
  intro next follows
  cases sect with
  | takeExecUnlessInterrupted taken =>
    simp only [Section.run] at follows
    split at follows
    · cases follows
    · split at follows
      · rw [← Option.some.inj follows]; rfl
      · cases follows
  | takeInteraction taken =>
    simp only [Section.run] at follows
    split at follows
    · rw [← Option.some.inj follows]; rfl
    · cases follows
  | _ => first | cases follows; done | (rw [← Option.some.inj follows]; rfl)

/-- An id leaves the map of a runtime that it was pending in. -/
def Leaves (runtime after : CursorToolRuntime) (id : UInt32) : Prop :=
  id ∈ runtime.execs.ids ∧ id ∉ after.execs.ids ∧ after.interactions = runtime.interactions ∨
    id ∈ runtime.interactions.ids ∧ id ∉ after.interactions.ids ∧ after.execs = runtime.execs

/-- An id is handed out of one of the maps, and out of the Execs only when it is not interrupted. -/
theorem run_taken {id : UInt32} (taken : (sect.run runtime interrupted).event = .taken id) :
    Leaves runtime (sect.run runtime interrupted).runtime id ∧ (id ∈ runtime.execs.ids → id ∈ interrupted →
      id ∈ runtime.interactions.ids) := by
  have removed {α : Type} {entries : Entries α} : id ∉ (entries.remove id).ids := fun there =>
    (Entries.mem_ids_remove.mp there).2 rfl
  cases sect with
  | takeExecUnlessInterrupted other =>
    simp only [Section.run] at taken ⊢
    split at taken
    · cases taken
    case isFalse fresh =>
      split at taken
      case h_1 pending found =>
        obtain rfl := Event.taken.inj taken
        rw [if_neg fresh]
        exact ⟨.inl ⟨Entries.mem_of_get? found, removed, rfl⟩, fun _ there => absurd there fresh⟩
      · cases taken
  | takeInteraction other =>
    simp only [Section.run] at taken ⊢
    split at taken
    case h_1 pending found =>
      obtain rfl := Event.taken.inj taken
      exact ⟨.inr ⟨Entries.mem_of_get? found, removed, rfl⟩, fun _ _ => Entries.mem_of_get? found⟩
    · cases taken
  | _ => cases taken

theorem count_ids_filter {α : Type} (entries : Entries α) (keep : UInt32 × α → Bool) (id : UInt32) :
    (Entries.ids (entries.filter fun entry => !keep entry)).count id + (Entries.ids (entries.filter keep)).count id =
      entries.ids.count id := by
  induction entries with
  | nil => rfl
  | cons entry entries ih =>
    simp only [Entries.ids] at ih ⊢
    cases kept : keep entry with
    | true => simp only [filter_cons, kept, Bool.not_true, Bool.false_eq_true, if_false, if_true, map_cons, count_cons]; omega
    | false => simp only [filter_cons, kept, Bool.not_false, Bool.false_eq_true, if_false, if_true, map_cons, count_cons]; omega

/-- An id that a section stops leaves its map, or was gathered and is interrupted from here on. -/
theorem run_stopped {id : UInt32} (once : runtime.places.count id ≤ 1)
    (stopped : id ∈ (sect.run runtime interrupted).stopped) :
    Leaves runtime (sect.run runtime interrupted).runtime id ∨
      id ∈ sect.gathered ∧ id ∈ (sect.run runtime interrupted).interrupted := by
  cases sect with
  | takeExecUnlessInterrupted other =>
    simp only [Section.run] at stopped
    split at stopped
    · cases stopped
    · split at stopped
      · cases stopped
      · cases stopped
  | takeInteraction other =>
    simp only [Section.run] at stopped
    split at stopped
    · cases stopped
    · cases stopped
  | messageExecs =>
    have parts := count_ids_filter runtime.execs (fun entry => isTask entry.2.call) id
    have here := count_pos_iff.mpr stopped
    simp only [CursorToolRuntime.places, count_append] at once
    simp only [Section.run] at here
    refine .inl (.inl ⟨count_pos_iff.mp (by omega), fun kept => ?_, rfl⟩)
    have kept := count_pos_iff.mpr kept
    simp only [Section.run] at kept
    omega
  | messageInteractions => exact .inl (.inr ⟨stopped, nofun, rfl⟩)
  | messageInterrupted abortIds ids interactionIds =>
    exact .inr ⟨stopped, mem_append_left _ (mem_append_right _ stopped)⟩
  | replacementExecs => exact .inl (.inl ⟨stopped, nofun, rfl⟩)
  | replacementInteractions => exact .inl (.inr ⟨stopped, nofun, rfl⟩)
  | drainExecs => exact .inl (.inl ⟨stopped, nofun, rfl⟩)
  | drainInteractions => exact .inl (.inr ⟨stopped, nofun, rfl⟩)
  | _ => cases stopped

theorem run_gathered {id : UInt32} : ∀ next ∈ (sect.run runtime interrupted).next, id ∈ next.gathered →
    id ∈ sect.gathered ∨ id ∈ runtime.execs.ids := by
  intro next follows gathered
  cases sect with
  | takeExecUnlessInterrupted taken =>
    simp only [Section.run] at follows
    split at follows
    · cases follows
    · split at follows
      · rw [← Option.some.inj follows] at gathered; cases gathered
      · cases follows
  | takeInteraction taken =>
    simp only [Section.run] at follows
    split at follows
    · rw [← Option.some.inj follows] at gathered; cases gathered
    · cases follows
  | messageExecs =>
    rw [← Option.some.inj follows] at gathered
    exact .inr gathered
  | messageInteractions abortIds ids =>
    rw [← Option.some.inj follows] at gathered
    exact .inl gathered
  | _ => first | cases follows; done | (rw [← Option.some.inj follows] at gathered; cases gathered)

theorem run_interrupted {id : UInt32} (there : id ∈ interrupted) :
    id ∈ (sect.run runtime interrupted).interrupted ∨ ∃ ids, (sect.run runtime interrupted).event = .cleared ids := by
  cases sect with
  | takeExecUnlessInterrupted other =>
    simp only [Section.run]
    split
    · exact .inl there
    · split
      · exact .inl there
      · exact .inl there
  | takeInteraction other =>
    simp only [Section.run]
    split
    · exact .inl there
    · exact .inl there
  | messageInterrupted => exact .inl (mem_append_left _ (mem_append_left _ there))
  | replacementInterrupted => exact .inl (mem_append_left _ there)
  | drainInterrupted ids => exact .inr ⟨ids, rfl⟩
  | _ => exact .inl there

end Sections

/-! ### What a step does -/

theorem count_flatMap_set {α : Type} (places : α → List UInt32) (id : UInt32) {values : List α} {index : Nat} {old : α}
    (there : values[index]? = some old) (new : α) :
    ((values.set index new).flatMap places).count id + (places old).count id =
      (values.flatMap places).count id + (places new).count id := by
  induction values generalizing index with
  | nil => cases there
  | cons value values ih =>
    cases index with
    | zero =>
      obtain rfl : value = old := by simpa using there
      simp only [set_cons_zero, flatMap_cons, count_append]
      omega
    | succ index =>
      have rest := ih (by simpa using there)
      simp only [set_cons_succ, flatMap_cons, count_append]
      omega

/-- A section that ran: the runtime it ran on, and the flights that are left besides what follows it. -/
structure Ran (lineage : Lineage) (index : Nat) (runtime : CursorToolRuntime) (sect : Section) (flights : List Flight) :
    Prop where
  at_index : lineage.runtimes[index]? = some runtime
  inserting : ∀ id, (flights.flatMap fun flight => flight.sect.inserting).count id + sect.inserting.count id =
    lineage.inserting.count id
  flights : ∀ flight ∈ flights, flight ∈ lineage.flights
  gathered : ∀ id ∈ sect.gathered, ∃ flight ∈ lineage.flights, id ∈ flight.sect.gathered

/-- All that a step can do. -/
inductive Does (lineage : Lineage) (event : Event) (after : Lineage) : Prop
  | ran {index : Nat} {runtime : CursorToolRuntime} {sect : Section} {flights : List Flight}
    (ran : Ran lineage index runtime sect flights) (event_eq : event = (sect.run runtime lineage.interrupted).event)
    (after_eq : after = lineage.ended index flights (sect.run runtime lineage.interrupted))
  | reserve {index : Nat} {id : UInt32} (reservation : Reservation) (drawn : (nextId lineage.counter).2 = .ok id)
    (event_eq : event = .reserved (some id))
    (after_eq : after = { lineage with
      counter := (nextId lineage.counter).1
      flights := lineage.flights ++ [⟨index, reservation.insert id⟩]
      reservations := lineage.reservations + 1
      reserved := id :: lineage.reserved })
  | exhausted {error : Error} (drawn : (nextId lineage.counter).2 = .error error) (event_eq : event = .reserved none)
    (after_eq : after = { lineage with counter := (nextId lineage.counter).1, reservations := lineage.reservations + 1 })
  | nextRun (event_eq : event = .nothing) (after_eq : after = { lineage with runtimes := lineage.runtimes ++ [.fresh] })

theorem Lineage.Step.does {lineage after : Lineage} {event : Event} (step : lineage.Step event after) :
    Does lineage event after := by
  cases step with
  | @begin_ index runtime sect at_index begins free =>
    have nothing : sect.inserting = [] ∧ sect.gathered = [] := by
      cases sect <;> first | exact ⟨rfl, rfl⟩ | cases begins
    refine .ran ⟨at_index, fun id => ?_, fun _ there => there, fun id there => ?_⟩ rfl rfl
    · rw [nothing.1]; rfl
    · rw [nothing.2] at there; cases there
  | @goes_on index runtime sect before rest at_index waits free =>
    refine .ran ⟨at_index, fun id => ?_, fun flight there => ?_, fun id there => ?_⟩ rfl rfl
    · simp only [Lineage.inserting, waits, flatMap_append, flatMap_cons, count_append]
      omega
    · rw [waits]
      rcases mem_append.mp there with left | right
      · exact mem_append_left _ left
      · exact mem_append_right _ (mem_cons_of_mem _ right)
    · exact ⟨_, waits ▸ mem_append_right _ mem_cons_self, there⟩
  | reserve there reservation drawn => exact .reserve reservation drawn rfl rfl
  | exhausted drawn => exact .exhausted drawn rfl rfl
  | nextRun => exact .nextRun rfl rfl

section Counts

variable {lineage : Lineage} {index : Nat} {runtime : CursorToolRuntime} {sect : Section} {flights : List Flight}

theorem next_inserting (index : Nat) (next : Option Section) (nothing : ∀ sect ∈ next, sect.inserting = []) :
    ((next.map (Flight.mk index)).toList.flatMap fun flight => flight.sect.inserting) = [] := by
  cases next with
  | none => rfl
  | some sect => simp [nothing sect rfl]

theorem Ran.count_live (ran : Ran lineage index runtime sect flights) (id : UInt32) :
    (lineage.ended index flights (sect.run runtime lineage.interrupted)).live.count id + runtime.places.count id +
        sect.inserting.count id =
      lineage.live.count id + (sect.run runtime lineage.interrupted).runtime.places.count id := by
  have places := count_flatMap_set CursorToolRuntime.places id ran.at_index
    (sect.run runtime lineage.interrupted).runtime
  have inserting := ran.inserting id
  have nothing := next_inserting index _ (run_next_inserting runtime lineage.interrupted sect)
  simp only [Lineage.live, Lineage.ended, Lineage.inserting, flatMap_append, count_append, nothing,
    count_nil] at places inserting ⊢
  omega

theorem Ran.live_le (ran : Ran lineage index runtime sect flights) (id : UInt32) :
    (lineage.ended index flights (sect.run runtime lineage.interrupted)).live.count id ≤ lineage.live.count id := by
  have counts := ran.count_live id
  have places := run_places runtime lineage.interrupted sect id
  omega

theorem Ran.places_le (ran : Ran lineage index runtime sect flights) (id : UInt32) :
    runtime.places.count id ≤ lineage.live.count id := by
  have places := count_flatMap_set CursorToolRuntime.places id ran.at_index .fresh
  have fresh : CursorToolRuntime.fresh.places.count id = 0 := rfl
  simp only [Lineage.live, count_append]
  omega

theorem Ran.gone (ran : Ran lineage index runtime sect flights) {id : UInt32} (once : lineage.live.count id ≤ 1)
    (leaves : Leaves runtime (sect.run runtime lineage.interrupted).runtime id) :
    id ∈ lineage.live ∧ id ∉ (lineage.ended index flights (sect.run runtime lineage.interrupted)).live := by
  have counts := ran.count_live id
  have le := ran.places_le id
  rw [← count_pos_iff, ← count_eq_zero]
  simp only [CursorToolRuntime.places, count_append] at counts le
  rcases leaves with ⟨there, gone, same⟩ | ⟨there, gone, same⟩
  · have there := count_pos_iff.mpr there
    have gone := count_eq_zero.mpr gone
    rw [same] at counts
    omega
  · have there := count_pos_iff.mpr there
    have gone := count_eq_zero.mpr gone
    rw [same] at counts
    omega

end Counts

/-! ### An id is in one place -/

/-- An id is reserved once, is in one place at most, and is handed out of it once. -/
structure Owned (lineage : Lineage) : Prop where
  counter : lineage.counter.toNat = lineage.reservations
  drawn : ∀ id ∈ lineage.reserved, id.toNat ≤ lineage.reservations
  distinct : lineage.reserved.Nodup
  once : ∀ id, lineage.live.count id ≤ 1
  live_reserved : ∀ id ∈ lineage.live, id ∈ lineage.reserved
  taken_reserved : ∀ id ∈ lineage.taken, id ∈ lineage.reserved
  taken_gone : ∀ id ∈ lineage.taken, id ∉ lineage.live
  taken_once : lineage.taken.Nodup

theorem toNat_drawn {counter id : UInt32} (drawn : (nextId counter).2 = .ok id) :
    id = counter + 1 ∧ id.toNat = counter.toNat + 1 := by
  unfold nextId at drawn
  dsimp only at drawn
  split at drawn
  case isTrue => cases drawn
  case isFalse more =>
    obtain rfl := Except.ok.inj drawn
    have differs : counter.toNat ≠ 2 ^ 32 - 1 := fun same => more (UInt32.toNat_inj.mp (by rw [same]; rfl))
    have bound := counter.toNat_lt
    refine ⟨rfl, ?_⟩
    rw [UInt32.toNat_add, show (1 : UInt32).toNat = 1 from rfl, Nat.mod_eq_of_lt (by omega)]

theorem Owned.fresh_id {lineage : Lineage} (owned : Owned lineage) {id : UInt32}
    (drawn : (nextId lineage.counter).2 = .ok id) : id ∉ lineage.reserved := by
  intro there
  have le := owned.drawn id there
  have is := (toNat_drawn drawn).2
  rw [owned.counter] at is
  omega

theorem inserting_reservation (reservation : Reservation) (id : UInt32) : (reservation.insert id).inserting = [id] := by
  cases reservation <;> rfl

theorem Does.reservations_le {lineage after : Lineage} {event : Event} (does : Does lineage event after) :
    lineage.reservations ≤ after.reservations := by
  cases does with
  | ran _ _ after_eq => rw [after_eq]; exact Nat.le_refl _
  | reserve _ _ _ after_eq => rw [after_eq]; exact Nat.le_succ _
  | exhausted _ _ after_eq => rw [after_eq]; exact Nat.le_succ _
  | nextRun _ after_eq => rw [after_eq]

theorem Owned.step {lineage after : Lineage} {event : Event} (owned : Owned lineage) (does : Does lineage event after)
    (few : after.reservations < 2 ^ 32) : Owned after := by
  cases does with
  | @ran index runtime sect flights ran event_eq after_eq =>
    subst after_eq
    have live {id : UInt32} (there : id ∈ (lineage.ended index flights (sect.run runtime lineage.interrupted)).live) :
        id ∈ lineage.live :=
      count_pos_iff.mp (Nat.lt_of_lt_of_le (count_pos_iff.mpr there) (ran.live_le id))
    have taken {id : UInt32} (there : id ∈ (sect.run runtime lineage.interrupted).event.taken?) :
        Leaves runtime (sect.run runtime lineage.interrupted).runtime id := by
      cases is : (sect.run runtime lineage.interrupted).event with
      | taken other =>
        rw [is] at there
        obtain rfl : id = other := mem_singleton.mp there
        exact (run_taken runtime lineage.interrupted sect is).1
      | _ => rw [is] at there; cases there
    refine ⟨owned.counter, owned.drawn, owned.distinct, fun id => Nat.le_trans (ran.live_le id) (owned.once id),
      fun id there => owned.live_reserved id (live there), fun id there => ?_, fun id there => ?_, ?_⟩
    · rcases mem_append.mp there with new | old
      · exact owned.live_reserved id (ran.gone (owned.once id) (taken new)).1
      · exact owned.taken_reserved id old
    · rcases mem_append.mp there with new | old
      · exact (ran.gone (owned.once id) (taken new)).2
      · exact fun here => owned.taken_gone id old (live here)
    · refine nodup_append.mpr ⟨?_, owned.taken_once, ?_⟩
      · cases (sect.run runtime lineage.interrupted).event <;> simp [Event.taken?]
      · rintro id new other old rfl
        exact owned.taken_gone id old (ran.gone (owned.once id) (taken new)).1
  | @reserve index id reservation drawn event_eq after_eq =>
    subst after_eq
    have new := owned.fresh_id drawn
    have is := toNat_drawn drawn
    have live : ∀ other, ({ lineage with
        counter := (nextId lineage.counter).1
        flights := lineage.flights ++ [⟨index, reservation.insert id⟩]
        reservations := lineage.reservations + 1
        reserved := id :: lineage.reserved } : Lineage).live.count other = lineage.live.count other + [id].count other := by
      intro other
      simp only [Lineage.live, Lineage.inserting, flatMap_append, flatMap_cons, flatMap_nil,
        append_nil, inserting_reservation, count_append]
      omega
    refine ⟨?_, fun other there => ?_, nodup_cons.mpr ⟨new, owned.distinct⟩, fun other => ?_, fun other there => ?_,
      fun other there => mem_cons_of_mem _ (owned.taken_reserved other there), fun other there => ?_, owned.taken_once⟩
    · show (lineage.counter + 1).toNat = lineage.reservations + 1
      rw [← is.1, is.2, owned.counter]
    · rcases mem_cons.mp there with rfl | old
      · show other.toNat ≤ lineage.reservations + 1
        exact Nat.le_of_eq (by rw [is.2, owned.counter])
      · exact Nat.le_succ_of_le (owned.drawn other old)
    · rw [live]
      by_cases same : other = id
      · have none := count_eq_zero.mpr fun here => new (owned.live_reserved id here)
        exact Nat.le_of_eq (by rw [same, none, count_singleton_self])
      · rw [count_singleton, if_neg (by simpa using Ne.symm same)]
        exact owned.once other
    · have positive := count_pos_iff.mpr there
      rw [live] at positive
      by_cases same : other = id
      · exact same ▸ mem_cons_self
      · rw [count_singleton, if_neg (by simpa using Ne.symm same)] at positive
        exact mem_cons_of_mem _ (owned.live_reserved other (count_pos_iff.mp positive))
    · rw [← count_eq_zero, live, count_eq_zero.mpr (owned.taken_gone other there), count_singleton,
        if_neg]
      rintro same
      exact new ((eq_of_beq same) ▸ owned.taken_reserved other there)
  | exhausted drawn event_eq after_eq =>
    subst after_eq
    unfold nextId at drawn
    dsimp only at drawn few
    split at drawn
    case isTrue last =>
      have counter := owned.counter
      rw [last] at counter
      have is : (UInt32.ofNat (2 ^ 32 - 1)).toNat = 2 ^ 32 - 1 := rfl
      omega
    case isFalse => cases drawn
  | nextRun event_eq after_eq =>
    subst after_eq
    have live : ({ lineage with runtimes := lineage.runtimes ++ [.fresh] } : Lineage).live = lineage.live := by
      simp [Lineage.live, Lineage.inserting, CursorToolRuntime.places, CursorToolRuntime.fresh, Entries.ids]
    exact ⟨owned.counter, owned.drawn, owned.distinct, by rw [live]; exact owned.once,
      by rw [live]; exact owned.live_reserved, owned.taken_reserved, by rw [live]; exact owned.taken_gone, owned.taken_once⟩

/-! ### A stopped id is not handed out -/

/-- An id that can be pending as an Exec at most. -/
structure Settled (lineage : Lineage) (id : UInt32) : Prop where
  reserved : id ∈ lineage.reserved
  inserted : id ∉ lineage.inserting
  elsewhere : ∀ runtime ∈ lineage.runtimes, id ∉ runtime.interactions.ids

theorem Settled.of_gone {lineage : Lineage} {id : UInt32} (reserved : id ∈ lineage.reserved) (gone : id ∉ lineage.live) :
    Settled lineage id where
  reserved := reserved
  inserted there := gone (mem_append_left _ there)
  elsewhere runtime there pending :=
    gone (mem_append_right _ (mem_flatMap.mpr ⟨runtime, there, mem_append_right _ pending⟩))

theorem Ran.mem_inserting {lineage : Lineage} {index : Nat} {runtime : CursorToolRuntime} {sect : Section}
    {flights : List Flight} (ran : Ran lineage index runtime sect flights) {id : UInt32} (there : id ∈ sect.inserting) :
    id ∈ lineage.inserting := by
  have counts := ran.inserting id
  have positive := count_pos_iff.mpr there
  exact count_pos_iff.mp (by omega)

theorem mem_set {α : Type} {values : List α} {index : Nat} {new value : α} (there : value ∈ values.set index new) :
    value ∈ values ∨ value = new := mem_or_eq_of_mem_set there

theorem Owned.settled {lineage : Lineage} (owned : Owned lineage) {index : Nat} {runtime : CursorToolRuntime}
    (at_index : lineage.runtimes[index]? = some runtime) {id : UInt32} (pending : id ∈ runtime.execs.ids) :
    Settled lineage id := by
  -- without the Execs of that runtime, the id is gone
  have counts := count_flatMap_set CursorToolRuntime.places id at_index { runtime with execs := [] }
  have once := owned.once id
  have positive := count_pos_iff.mpr pending
  have emptied : ({ runtime with execs := [] } : CursorToolRuntime).places.count id = runtime.interactions.ids.count id := rfl
  simp only [Lineage.live, CursorToolRuntime.places, count_append] at once counts emptied
  have none : ((lineage.runtimes.set index { runtime with execs := [] }).flatMap CursorToolRuntime.places).count id = 0 := by
    omega
  have nowhere := count_eq_zero.mp none
  refine ⟨?_, count_eq_zero.mp (by omega), fun other there elsewhere => ?_⟩
  · refine owned.live_reserved id (mem_append_right _ (mem_flatMap.mpr ⟨runtime, ?_, mem_append_left _ pending⟩))
    exact mem_of_getElem? at_index
  · obtain ⟨place, at_place⟩ := getElem?_of_mem there
    by_cases same : index = place
    · subst same
      obtain rfl := Option.some.inj (at_place.symm.trans at_index)
      refine nowhere (mem_flatMap.mpr ⟨{ other with execs := [] }, ?_, mem_append_right _ elsewhere⟩)
      refine List.mem_of_getElem? (i := index) ?_
      rw [List.getElem?_set_self (List.getElem?_eq_some_iff.mp at_index).1]
    · refine nowhere (List.mem_flatMap.mpr ⟨other, ?_, List.mem_append_right _ elsewhere⟩)
      refine List.mem_of_getElem? (i := place) ?_
      rw [List.getElem?_set_ne same, at_place]

theorem Settled.step {lineage after : Lineage} {event : Event} {id : UInt32} (settled : Settled lineage id)
    (owned : Owned lineage) (does : Does lineage event after) : Settled after id := by
  cases does with
  | @ran index runtime sect flights ran event_eq after_eq =>
    subst after_eq
    refine ⟨settled.reserved, fun there => ?_, fun other there pending => ?_⟩
    · have counts := ran.inserting id
      have nothing := next_inserting index _ (run_next_inserting runtime lineage.interrupted sect)
      have positive := count_pos_iff.mpr there
      simp only [Lineage.inserting, Lineage.ended, flatMap_append, nothing, append_nil] at positive
      exact settled.inserted (count_pos_iff.mp (by omega))
    · rcases mem_set there with old | rfl
      · exact settled.elsewhere other old pending
      · rcases run_interactions runtime lineage.interrupted sect pending with before | inserted
        · exact settled.elsewhere runtime (mem_of_getElem? ran.at_index) before
        · exact settled.inserted (ran.mem_inserting inserted)
  | @reserve index new reservation drawn event_eq after_eq =>
    subst after_eq
    refine ⟨mem_cons_of_mem _ settled.reserved, fun there => ?_, settled.elsewhere⟩
    simp only [Lineage.inserting, flatMap_append, flatMap_cons, flatMap_nil, append_nil,
      inserting_reservation, mem_append, mem_singleton] at there
    rcases there with old | rfl
    · exact settled.inserted old
    · exact owned.fresh_id drawn settled.reserved
  | exhausted drawn event_eq after_eq =>
    subst after_eq
    exact ⟨settled.reserved, settled.inserted, settled.elsewhere⟩
  | nextRun event_eq after_eq =>
    subst after_eq
    refine ⟨settled.reserved, settled.inserted, fun runtime there pending => ?_⟩
    rcases mem_append.mp there with old | new
    · exact settled.elsewhere runtime old pending
    · rw [mem_singleton.mp new] at pending
      cases pending

/-- A stopped id is interrupted, or gone. -/
structure Halted (lineage : Lineage) : Prop where
  settled : ∀ id ∈ lineage.stopped, Settled lineage id
  gathered : ∀ flight ∈ lineage.flights, ∀ id ∈ flight.sect.gathered, Settled lineage id
  kept_out : ∀ id ∈ lineage.stopped, id ∈ lineage.interrupted ∨ ∀ runtime ∈ lineage.runtimes, id ∉ runtime.execs.ids

/-- No drain clears an id that is pending as an Exec of some run. -/
def Orderly (before : Lineage) (event : Event) (_ : Lineage) : Prop :=
  ∀ ids, event = .cleared ids → ∀ runtime ∈ before.runtimes, ∀ id ∈ runtime.execs.ids, id ∉ before.interrupted

theorem Halted.step {lineage after : Lineage} {event : Event} (halted : Halted lineage) (owned : Owned lineage)
    (does : Does lineage event after) (orderly : Orderly lineage event after) : Halted after := by
  have settles {id : UInt32} (settled : Settled lineage id) : Settled after id := settled.step owned does
  cases does with
  | @ran index runtime sect flights ran event_eq after_eq =>
    subst after_eq
    have once := owned.once
    have here : runtime ∈ lineage.runtimes := mem_of_getElem? ran.at_index
    -- an id that was settled is pending as an Exec only where it was before
    have before {id : UInt32} (settled : Settled lineage id) {other : CursorToolRuntime}
        (there : other ∈ lineage.runtimes.set index (sect.run runtime lineage.interrupted).runtime)
        (pending : id ∈ other.execs.ids) : ∃ old ∈ lineage.runtimes, id ∈ old.execs.ids := by
      rcases mem_set there with old | rfl
      · exact ⟨other, old, pending⟩
      · rcases run_execs runtime lineage.interrupted sect pending with old | inserted
        · exact ⟨runtime, here, old⟩
        · exact absurd (ran.mem_inserting inserted) settled.inserted
    have newly {id : UInt32} (new : id ∈ (sect.run runtime lineage.interrupted).stopped) :
        (id ∈ lineage.reserved ∧ id ∉ (lineage.ended index flights (sect.run runtime lineage.interrupted)).live) ∨
          Settled lineage id ∧ id ∈ (sect.run runtime lineage.interrupted).interrupted := by
      rcases run_stopped runtime lineage.interrupted sect (Nat.le_trans (ran.places_le id) (once id)) new with
        leaves | ⟨gathered, interrupted⟩
      · obtain ⟨there, gone⟩ := ran.gone (once id) leaves
        exact .inl ⟨owned.live_reserved id there, gone⟩
      · obtain ⟨flight, there, gathers⟩ := ran.gathered id gathered
        exact .inr ⟨halted.gathered flight there id gathers, interrupted⟩
    refine ⟨fun id there => ?_, fun flight there id gathers => ?_, fun id there => ?_⟩
    · rcases mem_append.mp there with new | old
      · rcases newly new with ⟨reserved, gone⟩ | ⟨settled, _⟩
        · exact Settled.of_gone reserved gone
        · exact settles settled
      · exact settles (halted.settled id old)
    · rcases mem_append.mp there with old | new
      · exact settles (halted.gathered flight (ran.flights flight old) id gathers)
      · obtain ⟨next, follows, rfl⟩ := Option.map_eq_some_iff.mp (Option.mem_toList.mp new)
        rcases run_gathered runtime lineage.interrupted sect next follows gathers with before | pending
        · obtain ⟨flight, there, gathers⟩ := ran.gathered id before
          exact settles (halted.gathered flight there id gathers)
        · exact settles (owned.settled ran.at_index pending)
    · rcases mem_append.mp there with new | old
      · rcases newly new with ⟨_, gone⟩ | ⟨_, interrupted⟩
        · exact .inr fun other there pending => gone (mem_append_right _
            (mem_flatMap.mpr ⟨other, there, mem_append_left _ pending⟩))
        · exact .inl interrupted
      · have settled := halted.settled id old
        rcases halted.kept_out id old with interrupted | out
        · rcases run_interrupted runtime lineage.interrupted sect interrupted with still | ⟨ids, cleared⟩
          · exact .inl still
          · refine .inr fun other there pending => ?_
            obtain ⟨runtime, old, pending⟩ := before settled there pending
            exact orderly ids (event_eq.trans cleared) runtime old id pending interrupted
        · refine .inr fun other there pending => ?_
          obtain ⟨runtime, old, pending⟩ := before settled there pending
          exact out runtime old pending
  | @reserve index new reservation drawn event_eq after_eq =>
    subst after_eq
    refine ⟨fun id there => settles (halted.settled id there), fun flight there id gathers => ?_, halted.kept_out⟩
    rcases mem_append.mp there with old | inserted
    · exact settles (halted.gathered flight old id gathers)
    · rw [mem_singleton.mp inserted] at gathers
      cases reservation <;> cases gathers
  | exhausted drawn event_eq after_eq =>
    subst after_eq
    exact ⟨fun id there => settles (halted.settled id there),
      fun flight there id gathers => settles (halted.gathered flight there id gathers), halted.kept_out⟩
  | nextRun event_eq after_eq =>
    subst after_eq
    refine ⟨fun id there => settles (halted.settled id there),
      fun flight there id gathers => settles (halted.gathered flight there id gathers), fun id there => ?_⟩
    refine (halted.kept_out id there).imp_right fun out runtime here pending => ?_
    rcases mem_append.mp here with old | new
    · exact out runtime old pending
    · rw [mem_singleton.mp new] at pending
      cases pending

theorem Halted.not_taken {lineage after : Lineage} {id : UInt32} (halted : Halted lineage) (owned : Owned lineage)
    (does : Does lineage (.taken id) after) :
    id ∈ lineage.reserved ∧ id ∉ lineage.taken ∧ id ∉ lineage.stopped := by
  cases does with
  | @ran index runtime sect flights ran event_eq after_eq =>
    obtain ⟨leaves, interrupted⟩ := run_taken runtime lineage.interrupted sect event_eq.symm
    have there := (ran.gone (owned.once id) leaves).1
    have here := mem_of_getElem? ran.at_index
    refine ⟨owned.live_reserved id there, fun taken => owned.taken_gone id taken there, fun stopped => ?_⟩
    have settled := halted.settled id stopped
    rcases leaves with ⟨pending, _⟩ | ⟨pending, _⟩
    · rcases halted.kept_out id stopped with marked | out
      · exact settled.elsewhere runtime here (interrupted pending marked)
      · exact out runtime here pending
    · exact settled.elsewhere runtime here pending
  | reserve _ _ event_eq => cases event_eq
  | exhausted _ event_eq => cases event_eq
  | nextRun event_eq => cases event_eq

theorem owned_of_run {start last : Lineage} {events : List Event} (begins : lineages.initial start)
    (run : (lineages.confine Orderly).Run start events last) (few : last.reservations < 2 ^ 32) :
    Owned last ∧ Halted last := by
  induction run with
  | nil =>
    obtain rfl : start = .fresh := begins
    have nothing : Lineage.fresh.live = [] := rfl
    refine ⟨⟨rfl, nofun, nodup_nil, fun id => by rw [nothing]; exact Nat.zero_le _, ?_, nofun, nofun,
      nodup_nil⟩, nofun, nofun, nofun⟩
    rw [nothing]
    exact nofun
  | snoc run step ih =>
    have does := step.1.does
    obtain ⟨owned, halted⟩ := ih (Nat.lt_of_le_of_lt does.reservations_le few)
    exact ⟨owned.step does few, halted.step owned does step.2⟩

/-- **The ids of a conversation's runs have one owner.** In every run of fewer than `2 ^ 32` reservations, in which no
drain clears an id that is still pending as an Exec, the reserved ids are distinct, and an id that is handed out was
reserved, was not handed out before, and was not pending at an interruption or a drain. -/
theorem ids_owned {start last : Lineage} {events : List Event} (begins : lineages.initial start)
    (run : (lineages.confine Orderly).Run start events last) (few : last.reservations < 2 ^ 32) :
    last.reserved.Nodup ∧ last.taken.Nodup ∧ ∀ id after, lineages.step last (.taken id) after →
      id ∈ last.reserved ∧ id ∉ last.taken ∧ id ∉ last.stopped := by
  obtain ⟨owned, halted⟩ := owned_of_run begins run few
  exact ⟨owned.distinct, owned.taken_once, fun id after step => halted.not_taken owned step.does⟩

/-! ### A drain of another run -/

/-- A pending Task. -/
def sampleTask : PendingExec := ⟨⟨0, "call-1", "model-call-1", "Task", "", .null, none⟩⟩

/-- A runtime with the Task. -/
def withExec : CursorToolRuntime := ⟨[(1, sampleTask)], [], [], false⟩

/-- A second run has begun, and its Task is pending. -/
def withTask : Lineage := ⟨1, [], [.fresh, withExec], [], 1, [1], [], []⟩

/-- A message has interrupted the Task, which keeps running. -/
def interruptedTask : Lineage := ⟨1, [1], [.fresh, withExec], [], 1, [1], [], [1]⟩

theorem withTask_run : lineages.Run .fresh [.nothing, .reserved (some 1), .nothing] withTask := by
  refine System.Run.cons .nextRun ?_
  refine System.Run.cons (@Lineage.Step.reserve _ 1 1 (by decide) (.exec sampleTask) rfl) (System.Run.single ?_)
  exact @Lineage.Step.goes_on _ 1 .fresh (.insertExec 1 sampleTask) [] [] rfl rfl fun _ => rfl

theorem interruptedTask_run : lineages.Run withTask [.nothing, .nothing, .aborted []] interruptedTask := by
  refine System.Run.cons (@Lineage.Step.begin_ _ 1 withExec .messageExecs rfl rfl fun _ => rfl) ?_
  refine System.Run.cons (@Lineage.Step.goes_on _ 1 withExec (.messageInteractions [] [1]) [] [] rfl rfl nofun) ?_
  exact System.Run.single (@Lineage.Step.goes_on _ 1 withExec (.messageInterrupted [] [1] []) [] [] rfl rfl nofun)

/-- The run up to there has no drain: the interrupted Task is not handed out. -/
theorem ids_owned_interrupted : interruptedTask.reserved.Nodup ∧ interruptedTask.taken.Nodup ∧
    ∀ id after, lineages.step interruptedTask (.taken id) after →
      id ∈ interruptedTask.reserved ∧ id ∉ interruptedTask.taken ∧ id ∉ interruptedTask.stopped := by
  have run := System.Run.confine (withTask_run.append interruptedTask_run) fun before event after there _ => by
    show Orderly before event after
    rintro ids rfl
    simp at there
  exact ids_owned rfl run (by decide)

/-- The first run is drained late, and then the second run's Task is handed out although it was interrupted. -/
theorem stopped_then_taken : ∃ last events after, lineages.Run .fresh events last ∧ last.reservations < 2 ^ 32 ∧
    1 ∈ last.stopped ∧ lineages.step last (.taken 1) after := by
  have drained : lineages.Run interruptedTask [.nothing, .nothing, .nothing, .cleared []]
      { interruptedTask with interrupted := [] } := by
    refine System.Run.cons (@Lineage.Step.begin_ _ 0 .fresh .drainExecs rfl rfl fun _ => rfl) ?_
    refine System.Run.cons (@Lineage.Step.goes_on _ 0 ⟨[], [], [], true⟩ (.drainInteractions []) [] [] rfl rfl nofun) ?_
    refine System.Run.cons (@Lineage.Step.goes_on _ 0 ⟨[], [], [], true⟩ (.drainCompleted []) [] [] rfl rfl nofun) ?_
    exact System.Run.single (@Lineage.Step.goes_on _ 0 ⟨[], [], [], true⟩ (.drainInterrupted []) [] [] rfl rfl nofun)
  have taken := @Lineage.Step.begin_ { interruptedTask with interrupted := [] } 1 withExec
    (.takeExecUnlessInterrupted 1) rfl rfl fun _ => rfl
  exact ⟨_, _, _, (withTask_run.append interruptedTask_run).append drained, by decide, by decide, taken⟩

end Byok.Cursor.Tools
