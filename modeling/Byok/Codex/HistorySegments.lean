/-
**The segments of a history.**

* `segments_calls`, `segments_results`, `segments_spoken` — the segments hold the items, in their order.
* `segments_ordered` — their places go up.
* `segments_turns` — turns go up, and a message of the user begins each.
* `segments_complete` — in a history that is accepted, every segment answers its calls.
-/

import Byok.Codex.HistoryLoop

namespace Byok.Codex

open Library List

variable {bridge : Bridge} {reading : Reading} {segment : Segment} {entry : Value × Nat} {entries : List (Value × Nat)}

/-! ### Items that open a segment -/

theorem opens_kind (opening : opens entry.1 = true) :
    callOf entry = none ∧ outputOf entry = none ∧ thoughtMarks reading entry = [] := by
  have kinds : isCallType (itemType entry.1) = false ∧ itemType entry.1 ≠ "reasoning" ∧
      ((createThreadInput entry.1).isSome = true ∨ isOutputType (itemType entry.1) = false) := by
    simp only [opens, Bool.or_eq_true] at opening
    rcases opening with (thread | user) | assistant
    · have output := Format.Follows.createThread_output thread
      simp only [isOutputType, Bool.or_eq_true, beq_iff_eq] at output
      refine ⟨?_, ?_, .inl thread⟩
      · rcases output with kind | kind <;> rw [kind] <;> rfl
      · rcases output with kind | kind <;> rw [kind] <;> decide
    · simp only [isMessageOf, Bool.and_eq_true, beq_iff_eq] at user
      rw [user.1.2]
      exact ⟨rfl, by decide, .inr rfl⟩
    · simp only [isMessageOf, Bool.and_eq_true, beq_iff_eq] at assistant
      rw [assistant.1.2]
      exact ⟨rfl, by decide, .inr rfl⟩
  obtain ⟨call, reasoning, output⟩ := kinds
  refine ⟨?_, ?_, ?_⟩
  · rw [callOf, call]
    rfl
  · rw [outputOf]
    rcases output with thread | output
    · rw [Option.isSome_iff_ne_none] at thread
      cases known : createThreadInput entry.1 with
      | none => exact absurd known thread
      | some text => rfl
    · rw [output, Bool.and_false]
      rfl
  · rw [thoughtMarks, if_neg reasoning]

theorem inner_spoken (inner : opens entry.1 = false) : spokenMarks bridge reading entry = [] := by
  simp only [opens, Bool.or_eq_false_iff] at inner
  obtain ⟨⟨thread, user⟩, assistant⟩ := inner
  rw [spokenMarks, userMarks, textOrigin, thread, user, assistant]
  rfl

/-! ### What the segments hold -/

/-- The texts of a segment. -/
def Segment.spoken (segment : Segment) : List Mark := segment.user ++ segment.text.toList.map .text

theorem segmentsFrom_flatMap {α : Type} (field : Segment → List α) (of : Value × Nat → List α)
    (adds : ∀ segment entry, opens entry.1 = false → field (segment.add reading entry) = field segment ++ of entry)
    (starts : ∀ turn entry, opens entry.1 = true → field (opened bridge reading turn entry) = of entry) :
    (segmentsFrom bridge reading segment entries).flatMap field = field segment ++ entries.flatMap of := by
  induction entries generalizing segment with
  | nil => simp [segmentsFrom]
  | cons entry entries ih =>
    rw [segmentsFrom, flatMap_cons]
    cases opening : opens entry.1 with
    | true =>
      rw [if_pos rfl, flatMap_cons, ih, starts _ _ opening]
    | false =>
      rw [if_neg Bool.false_ne_true, ih, adds _ _ opening, append_assoc]

theorem flatMap_toList {α β : Type} (f : α → Option β) (list : List α) :
    (list.flatMap fun element => (f element).toList) = list.filterMap f := by
  induction list with
  | nil => rfl
  | cons element list ih =>
    rw [flatMap_cons, ih, filterMap_cons]
    cases f element <;> rfl

theorem segments_calls (items : List Value) :
    (segments bridge reading items).flatMap Segment.calls = items.zipIdx.filterMap callOf := by
  rw [segments, segmentsFrom_flatMap Segment.calls (fun entry => (callOf entry).toList), flatMap_toList]
  · rfl
  · exact fun _ _ _ => rfl
  · intro turn entry opening
    rw [(@opens_kind reading _ opening).1]
    rfl

theorem segments_results (items : List Value) :
    (segments bridge reading items).flatMap Segment.results = items.zipIdx.filterMap outputOf := by
  rw [segments, segmentsFrom_flatMap Segment.results (fun entry => (outputOf entry).toList), flatMap_toList]
  · rfl
  · exact fun _ _ _ => rfl
  · intro turn entry opening
    rw [(@opens_kind reading _ opening).2.1]
    rfl

theorem segments_spoken (items : List Value) :
    (segments bridge reading items).flatMap Segment.spoken = items.zipIdx.flatMap (spokenMarks bridge reading) := by
  rw [segments, segmentsFrom_flatMap Segment.spoken (spokenMarks bridge reading)]
  · rfl
  · intro segment entry inner
    rw [inner_spoken inner, append_nil]
    rfl
  · exact fun _ _ _ => rfl

/-! ### Kinds of marks -/

/-- The marks of a segment say what they are. -/
structure Segment.Marked (segment : Segment) : Prop where
  user : ∀ mark ∈ segment.user, ∃ origin, mark = .user origin
  thoughts : ∀ mark ∈ segment.thoughts, ∃ origin, mark = .reasoning origin

theorem userMarks_kind : ∀ mark ∈ userMarks reading entry, mark = .user entry.2 := by
  intro mark member
  rw [userMarks] at member
  split at member
  · exact mem_singleton.mp member
  · split at member
    · exact eq_of_mem_replicate member
    · cases member

theorem thoughtMarks_kind : ∀ mark ∈ thoughtMarks reading entry, mark = .reasoning entry.2 := by
  intro mark member
  rw [thoughtMarks] at member
  split at member
  · exact eq_of_mem_replicate member
  · cases member

theorem segmentsFrom_forall {P : Segment → Prop} (holds : P segment)
    (adds : ∀ segment entry, P segment → P (segment.add reading entry))
    (starts : ∀ turn entry, P (opened bridge reading turn entry)) :
    ∀ other ∈ segmentsFrom bridge reading segment entries, P other := by
  induction entries generalizing segment with
  | nil =>
    intro other member
    rw [segmentsFrom, mem_singleton] at member
    exact member ▸ holds
  | cons entry entries ih =>
    rw [segmentsFrom]
    split
    · intro other member
      rcases mem_cons.mp member with rfl | member
      · exact holds
      · exact ih (starts _ _) other member
    · exact ih (adds _ _ holds)

theorem segments_marked (items : List Value) : ∀ segment ∈ segments bridge reading items, segment.Marked := by
  refine segmentsFrom_forall ⟨by simp, by simp⟩ (fun segment entry marked => ⟨marked.user, ?_⟩)
    fun turn entry => ⟨fun mark member => ⟨entry.2, userMarks_kind mark member⟩, by simp [opened]⟩
  intro mark member
  rcases mem_append.mp member with old | new
  · exact marked.thoughts mark old
  · exact ⟨entry.2, thoughtMarks_kind mark new⟩

/-! ### Places -/

def Mark.origin : Mark → Nat
  | .user origin => origin
  | .text origin => origin
  | .reasoning origin => origin
  | .call origin _ => origin
  | .result origin _ => origin

/-- The places of the items of a segment. -/
def Segment.origins (segment : Segment) : List Nat :=
  segment.user.map Mark.origin ++ segment.calls.map Prod.fst ++ segment.results.map Prod.fst ++
    segment.thoughts.map Mark.origin

theorem callOf_origin {call : Nat × String} (known : callOf entry = some call) : call.1 = entry.2 := by
  rw [callOf] at known
  split at known
  · obtain ⟨callId, -, rfl⟩ := Option.map_eq_some_iff.mp known
    rfl
  · cases known

theorem outputOf_origin {result : Nat × String} (known : outputOf entry = some result) : result.1 = entry.2 := by
  rw [outputOf] at known
  split at known
  · obtain ⟨callId, -, rfl⟩ := Option.map_eq_some_iff.mp known
    rfl
  · cases known

theorem origins_add {origin : Nat} (member : origin ∈ (segment.add reading entry).origins) :
    origin ∈ segment.origins ∨ origin = entry.2 := by
  simp only [Segment.origins, Segment.add, mem_append, map_append, or_assoc] at member ⊢
  rcases member with user | call | call | result | result | thought | thought
  · exact .inl user
  · exact .inr (.inl call)
  · obtain ⟨call, known, rfl⟩ := mem_map.mp call
    exact .inr (.inr (.inr (.inr (callOf_origin (Option.mem_toList.mp known)))))
  · exact .inr (.inr (.inl result))
  · obtain ⟨result, known, rfl⟩ := mem_map.mp result
    exact .inr (.inr (.inr (.inr (outputOf_origin (Option.mem_toList.mp known)))))
  · exact .inr (.inr (.inr (.inl thought)))
  · obtain ⟨mark, known, rfl⟩ := mem_map.mp thought
    rw [thoughtMarks_kind mark known]
    exact .inr (.inr (.inr (.inr rfl)))

theorem origins_opened {turn origin : Nat} (member : origin ∈ (opened bridge reading turn entry).origins) :
    origin = entry.2 := by
  simp only [Segment.origins, opened, map_nil, append_nil] at member
  obtain ⟨mark, known, rfl⟩ := mem_map.mp member
  rw [userMarks_kind mark known]
  rfl

/-- The places of what is behind are larger. -/
def Before (first second : Segment) : Prop := ∀ m ∈ first.origins, ∀ n ∈ second.origins, m < n

theorem segmentsFrom_origins {other : Segment} (member : other ∈ segmentsFrom bridge reading segment entries) :
    ∀ origin ∈ other.origins, origin ∈ segment.origins ∨ origin ∈ entries.map Prod.snd := by
  induction entries generalizing segment with
  | nil =>
    rw [segmentsFrom, mem_singleton] at member
    exact fun origin inside => .inl (member ▸ inside)
  | cons entry entries ih =>
    intro origin inside
    rw [segmentsFrom] at member
    rw [map_cons, mem_cons]
    split at member
    · rcases mem_cons.mp member with rfl | member
      · exact .inl inside
      · rcases ih member origin inside with here | later
        · exact .inr (.inl (origins_opened here))
        · exact .inr (.inr later)
    · rcases ih member origin inside with here | later
      · exact (origins_add here).imp id .inl
      · exact .inr (.inr later)

theorem segmentsFrom_before (sorted : entries.Pairwise fun first second => first.2 < second.2)
    (below : ∀ origin ∈ segment.origins, ∀ entry ∈ entries, origin < entry.2) :
    (segmentsFrom bridge reading segment entries).Pairwise Before := by
  induction entries generalizing segment with
  | nil =>
    rw [segmentsFrom]
    exact pairwise_singleton _ _
  | cons entry entries ih =>
    obtain ⟨first, sorted⟩ := pairwise_cons.mp sorted
    rw [segmentsFrom]
    split
    · refine pairwise_cons.mpr ⟨fun other member m inside n behind => ?_, ih sorted fun origin here =>
        origins_opened here ▸ first⟩
      rcases segmentsFrom_origins member n behind with here | later
      · rw [origins_opened here]
        exact below m inside entry mem_cons_self
      · obtain ⟨next, listed, rfl⟩ := mem_map.mp later
        exact below m inside next (mem_cons_of_mem _ listed)
    · refine ih sorted fun origin here next listed => ?_
      rcases origins_add here with old | rfl
      · exact below origin old next (mem_cons_of_mem _ listed)
      · exact first next listed

theorem zipIdx_sorted (items : List Value) : items.zipIdx.Pairwise fun first second => first.2 < second.2 := by
  refine pairwise_map.mp ?_
  rw [zipIdx_map_snd]
  exact pairwise_lt_range'

/-- **The places of the segments go up.** -/
theorem segments_before (items : List Value) : (segments bridge reading items).Pairwise Before :=
  segmentsFrom_before (zipIdx_sorted items) (by simp [Segment.origins])

theorem segments_user_first (items : List Value) :
    ∀ segment ∈ segments bridge reading items, ∀ mark ∈ segment.user, ∀ thought ∈ segment.thoughts,
      mark.origin < thought.origin := by
  suffices inside : ∀ (entries : List (Value × Nat)) (segment : Segment),
      (entries.Pairwise fun first second => first.2 < second.2) →
      (∀ mark ∈ segment.user, ∀ thought ∈ segment.thoughts, mark.origin < thought.origin) →
      (∀ mark ∈ segment.user, ∀ entry ∈ entries, mark.origin < entry.2) →
      ∀ other ∈ segmentsFrom bridge reading segment entries, ∀ mark ∈ other.user, ∀ thought ∈ other.thoughts,
        mark.origin < thought.origin from
    inside _ _ (zipIdx_sorted items) (by simp) (by simp)
  intro entries
  induction entries with
  | nil =>
    intro segment _ holds _ other member
    rw [segmentsFrom, mem_singleton] at member
    exact member ▸ holds
  | cons entry entries ih =>
    intro segment sorted holds below
    obtain ⟨first, sorted⟩ := pairwise_cons.mp sorted
    rw [segmentsFrom]
    split
    · intro other member
      rcases mem_cons.mp member with rfl | member
      · exact holds
      · refine ih _ sorted (by simp [opened]) (fun mark user next listed => ?_) other member
        rw [userMarks_kind mark user]
        exact first next listed
    · refine ih _ sorted (fun mark user thought member => ?_)
        fun mark user next listed => below mark user next (mem_cons_of_mem _ listed)
      rcases mem_append.mp member with old | new
      · exact holds mark user thought old
      · rw [thoughtMarks_kind thought new]
        exact below mark user entry mem_cons_self

/-! ### Turns -/

/-- Turns go up, and with every message of the user. -/
def TurnBefore (first second : Segment) : Prop :=
  first.turn ≤ second.turn ∧ (second.user ≠ [] → first.turn < second.turn)

theorem opened_turn (turn : Nat) (entry : Value × Nat) :
    turn ≤ (opened bridge reading turn entry).turn ∧
      ((opened bridge reading turn entry).user ≠ [] → (opened bridge reading turn entry).turn = turn + 1) ∧
      ((opened bridge reading turn entry).user = [] → (opened bridge reading turn entry).turn = turn) := by
  rw [opened]
  by_cases user : userMarks reading entry = []
  · simp [user]
  · simp [user]

theorem segmentsFrom_turns {other : Segment} (member : other ∈ segmentsFrom bridge reading segment entries) :
    segment.turn ≤ other.turn := by
  induction entries generalizing segment with
  | nil =>
    rw [segmentsFrom, mem_singleton] at member
    exact member ▸ Nat.le_refl _
  | cons entry entries ih =>
    rw [segmentsFrom] at member
    split at member
    · rcases mem_cons.mp member with rfl | member
      · exact Nat.le_refl _
      · exact (opened_turn segment.turn entry).1.trans (ih member)
    · exact (ih member : (segment.add reading entry).turn ≤ other.turn)

theorem segmentsFrom_turnBefore :
    (segmentsFrom bridge reading segment entries).Pairwise TurnBefore := by
  suffices stronger : (segmentsFrom bridge reading segment entries).Pairwise TurnBefore ∧
      ∀ other ∈ segmentsFrom bridge reading segment entries,
        other.user ≠ [] → other.turn ≤ segment.turn → other.user = segment.user from stronger.1
  induction entries generalizing segment with
  | nil =>
    refine ⟨?_, fun other member _ _ => ?_⟩
    · rw [segmentsFrom]
      exact pairwise_singleton _ _
    · rw [segmentsFrom, mem_singleton] at member
      rw [member]
  | cons entry entries ih =>
    rw [segmentsFrom]
    split
    · obtain ⟨pairwise, same⟩ := @ih (opened bridge reading segment.turn entry)
      obtain ⟨up, user, plain⟩ := @opened_turn bridge reading segment.turn entry
      have higher : ∀ other ∈ segmentsFrom bridge reading (opened bridge reading segment.turn entry) entries,
          other.user ≠ [] → segment.turn < other.turn := by
        intro other member present
        have above := segmentsFrom_turns member
        by_cases here : (opened bridge reading segment.turn entry).user = []
        · rcases Nat.lt_or_ge segment.turn other.turn with less | more
          · exact less
          · rw [plain here] at above
            have equal := same other member present (by rw [plain here]; exact more)
            exact absurd (equal.trans here) present
        · have := user here
          omega
      refine ⟨pairwise_cons.mpr ⟨fun other member => ⟨up.trans (segmentsFrom_turns member),
        higher other member⟩, pairwise⟩, fun other member present most => ?_⟩
      rcases mem_cons.mp member with rfl | member
      · rfl
      · have := higher other member present
        omega
    · exact @ih (segment.add reading entry)

theorem segmentsFrom_head : ∃ first ∈ segmentsFrom bridge reading segment entries,
    first.user = segment.user ∧ first.turn = segment.turn := by
  induction entries generalizing segment with
  | nil => exact ⟨segment, by rw [segmentsFrom]; exact mem_singleton_self _, rfl, rfl⟩
  | cons entry entries ih =>
    rw [segmentsFrom]
    split
    · exact ⟨segment, mem_cons_self, rfl, rfl⟩
    · exact @ih (segment.add reading entry)

/-- **Turns go up, and a message of the user begins each.** -/
theorem segments_turns (items : List Value) :
    (segments bridge reading items).Pairwise TurnBefore ∧
      ∀ segment ∈ segments bridge reading items, segment.turn = 0 ∨
        ∃ first ∈ segments bridge reading items, first.user ≠ [] ∧ first.turn = segment.turn := by
  refine ⟨segmentsFrom_turnBefore, ?_⟩
  suffices begun : ∀ (entries : List (Value × Nat)) (segment : Segment),
      ∀ other ∈ segmentsFrom bridge reading segment entries, other.turn = segment.turn ∨
        ∃ first ∈ segmentsFrom bridge reading segment entries, first.user ≠ [] ∧ first.turn = other.turn from
    begun _ _
  intro entries
  induction entries with
  | nil =>
    intro segment other member
    rw [segmentsFrom, mem_singleton] at member
    exact .inl (member ▸ rfl)
  | cons entry entries ih =>
    intro segment other member
    rw [segmentsFrom] at member ⊢
    split at member
    · rename_i opening
      rw [if_pos opening]
      rcases mem_cons.mp member with rfl | member
      · exact .inl rfl
      · rcases ih _ other member with same | ⟨first, listed, present, same⟩
        · obtain ⟨-, user, plain⟩ := @opened_turn bridge reading segment.turn entry
          by_cases here : (opened bridge reading segment.turn entry).user = []
          · exact .inl (same.trans (plain here))
          · obtain ⟨first, listed, begins, turn⟩ :=
              @segmentsFrom_head bridge reading (opened bridge reading segment.turn entry) entries
            exact .inr ⟨first, mem_cons_of_mem _ listed, begins ▸ here, turn.trans same.symm⟩
        · exact .inr ⟨first, mem_cons_of_mem _ listed, present, same⟩
    · rename_i inner
      rw [if_neg inner]
      exact ih (segment.add reading entry) other member

/-! ### Accepted histories -/

/-- Every call of the segment has its result there, and every result its call. -/
def Segment.Complete (segment : Segment) : Prop :=
  (segment.calls.map Prod.snd).Perm (segment.results.map Prod.snd)

/-- Calls without a result are those that wait for one. -/
def Awaits (segment : Segment) (pending : List (String × String)) : Prop :=
  (segment.calls.map Prod.snd).Perm (pending.map Prod.fst ++ segment.results.map Prod.snd) ∧
    (pending.map Prod.fst).Nodup

theorem Awaits.complete {pending : List (String × String)} (awaits : Awaits segment pending) (none : pending = []) :
    segment.Complete := by
  have all := awaits.1
  rw [none] at all
  exact all

theorem ToolHistory.step_opens {history next : ToolHistory} (opening : opens entry.1 = true)
    (stepped : history.step entry.1 = .ok next) : history.pending = [] ∧ next = history := by
  rw [ToolHistory.step] at stepped
  by_cases thread : (createThreadInput entry.1).isSome = true
  · rw [if_pos thread] at stepped
    split at stepped
    · cases stepped
    · rename_i empty
      exact ⟨not_not.mp empty, (Except.ok.inj stepped).symm⟩
  · have message : itemType entry.1 = "message" ∧
        ¬ (str entry.1 "role" = some "system" ∨ str entry.1 "role" = some "developer") := by
      simp only [opens, Bool.or_eq_true, isMessageOf, Bool.and_eq_true, beq_iff_eq] at opening
      rcases opening with (found | user) | assistant
      · exact absurd found thread
      · refine ⟨user.1.2, ?_⟩
        rw [user.2]
        simp
      · refine ⟨assistant.1.2, ?_⟩
        rw [assistant.2]
        simp
    rw [if_neg thread, message.1, if_neg (by decide), if_neg (by decide), if_neg (by decide)] at stepped
    split at stepped
    · cases stepped
    · rename_i empty
      refine ⟨?_, (Except.ok.inj stepped).symm⟩
      by_contra some
      exact empty ⟨rfl, some, message.2⟩

theorem ToolHistory.take_ok {history next : ToolHistory} {item : Value} {callId : String}
    (taken : history.take item callId = .ok next) : callId ∈ history.pending.map Prod.fst ∧
      next = ⟨history.pending.filter (·.1 ≠ callId), history.seen⟩ := by
  rw [take] at taken
  split at taken
  · cases taken
  · rename_i matched
    split at taken
    · cases taken
    · refine ⟨?_, (Except.ok.inj taken).symm⟩
      cases waiting : history.pending.find? fun entry => entry.1 = callId with
      | none =>
        rw [waiting] at matched
        exact absurd (fun same => by cases same) matched
      | some waits =>
        have here := find?_some waiting
        rw [decide_eq_true_eq] at here
        exact here ▸ mem_map_of_mem (mem_of_find?_eq_some waiting)

theorem ToolHistory.step_inner {history next : ToolHistory} (inner : opens entry.1 = false)
    (stepped : history.step entry.1 = .ok next) (awaits : Awaits segment history.pending)
    (known : ∀ callId ∈ history.pending.map Prod.fst, callId ∈ history.seen) :
    Awaits (segment.add reading entry) next.pending ∧ ∀ callId ∈ next.pending.map Prod.fst, callId ∈ next.seen := by
  have thread : (createThreadInput entry.1).isSome = false := by
    simp only [opens, Bool.or_eq_false_iff] at inner
    exact inner.1.1
  have nowhere : (createThreadInput entry.1).isNone = true := by
    rw [Option.isNone_iff_eq_none]
    exact Option.isSome_eq_false_iff.mp thread |> Option.isNone_iff_eq_none.mp
  rw [ToolHistory.step, if_neg (by simp [thread])] at stepped
  by_cases call : isCallType (itemType entry.1) = true
  · rw [if_pos call] at stepped
    obtain ⟨callId, read, stepped⟩ := except_bind_eq_ok.mp stepped
    split at stepped
    · cases stepped
    · rename_i fresh
      obtain rfl := Except.ok.inj stepped
      have found : callOf entry = some (entry.2, callId) := by
        rw [callOf, if_pos call, read]
        rfl
      have other : outputOf entry = none := by
        have kind : isOutputType (itemType entry.1) = false := by
          simp only [isCallType, Bool.or_eq_true, beq_iff_eq] at call
          rcases call with kind | kind <;> rw [kind] <;> rfl
        rw [outputOf, kind, Bool.and_false]
        rfl
      refine ⟨⟨?_, ?_⟩, fun id member => ?_⟩
      · rw [Segment.add, found, other]
        simp only [Option.toList_some, Option.toList_none, append_nil, map_append, map_cons,
          cons_append]
        exact perm_append_singleton _ _ |>.trans (awaits.1.cons _)
      · rw [map_cons, nodup_cons]
        exact ⟨fun waits => fresh (known _ waits), awaits.2⟩
      · rw [map_cons] at member
        rcases mem_cons.mp member with rfl | member
        · exact mem_cons_self
        · exact mem_cons_of_mem _ (known id member)
  · rw [if_neg call] at stepped
    have found : callOf entry = none := by rw [callOf, if_neg call]
    split at stepped
    · cases stepped
    · by_cases output : isOutputType (itemType entry.1) = true
      · rw [if_pos output] at stepped
        obtain ⟨callId, read, stepped⟩ := except_bind_eq_ok.mp stepped
        have answer : outputOf entry = some (entry.2, callId) := by
          rw [outputOf, nowhere, output, read]
          rfl
        obtain ⟨member, rfl⟩ := ToolHistory.take_ok stepped
        have rest : (history.pending.filter (·.1 ≠ callId)).map Prod.fst =
            (history.pending.map Prod.fst).erase callId := by
          rw [List.Nodup.erase_eq_filter awaits.2, filter_map]
          refine congrArg _ (filter_congr fun waits _ => ?_)
          by_cases same : waits.1 = callId
          · simp [same]
          · simp [same]
        refine ⟨⟨?_, ?_⟩, fun id inside => ?_⟩
        · rw [Segment.add, found, answer]
          simp only [Option.toList_some, Option.toList_none, append_nil, map_append, map_singleton]
          rw [rest]
          refine awaits.1.trans (((perm_cons_erase member).append_right _).trans ?_)
          rw [cons_append, ← append_assoc]
          exact (perm_append_singleton _ _).symm
        · rw [rest]
          exact awaits.2.erase _
        · rw [rest] at inside
          exact known id (mem_of_mem_erase inside)
      · rw [if_neg output] at stepped
        have none : outputOf entry = none := by
          rw [outputOf, nowhere, Bool.true_and, if_neg output]
        have same : next = history := by
          split at stepped
          · cases stepped
          · exact (Except.ok.inj stepped).symm
        subst same
        refine ⟨⟨?_, awaits.2⟩, known⟩
        rw [Segment.add, found, none]
        simpa using awaits.1

theorem ToolHistory.step_seen {history next : ToolHistory} {item : Value} (stepped : history.step item = .ok next) :
    ∀ callId ∈ history.seen, callId ∈ next.seen := by
  intro callId seen
  rw [step] at stepped
  split at stepped
  · split at stepped
    · cases stepped
    · exact Except.ok.inj stepped ▸ seen
  · split at stepped
    · obtain ⟨id, -, stepped⟩ := except_bind_eq_ok.mp stepped
      split at stepped
      · cases stepped
      · exact Except.ok.inj stepped ▸ mem_cons_of_mem _ seen
    · split at stepped
      · cases stepped
      · split at stepped
        · obtain ⟨id, -, stepped⟩ := except_bind_eq_ok.mp stepped
          exact (take_ok stepped).2 ▸ seen
        · split at stepped
          · cases stepped
          · exact Except.ok.inj stepped ▸ seen

theorem ToolHistory.step_call {history next : ToolHistory} {call : Nat × String}
    (stepped : history.step entry.1 = .ok next) (known : callOf entry = some call) :
    call.2 ∉ history.seen ∧ call.2 ∈ next.seen := by
  rw [callOf] at known
  split at known
  · rename_i kind
    have thread : ¬ (createThreadInput entry.1).isSome = true := by
      intro thread
      have output := Format.Follows.createThread_output thread
      simp only [isCallType, isOutputType, Bool.or_eq_true, beq_iff_eq] at kind output
      rcases output with output | output <;> rw [output] at kind <;> simp at kind
    rw [step, if_neg thread, if_pos kind] at stepped
    obtain ⟨callId, read, stepped⟩ := except_bind_eq_ok.mp stepped
    rw [read] at known
    obtain rfl := Option.some.inj known
    split at stepped
    · cases stepped
    · rename_i fresh
      exact ⟨fresh, Except.ok.inj stepped ▸ mem_cons_self⟩
  · cases known

theorem foldlM_complete {history last : ToolHistory}
    (ran : entries.foldlM (fun history entry => ToolHistory.step history entry.1) history = .ok last)
    (done : last.pending = []) (awaits : Awaits segment history.pending)
    (known : ∀ callId ∈ history.pending.map Prod.fst, callId ∈ history.seen) :
    ∀ other ∈ segmentsFrom bridge reading segment entries, other.Complete := by
  induction entries generalizing segment history with
  | nil =>
    obtain rfl := Except.ok.inj ran
    intro other member
    rw [segmentsFrom, mem_singleton] at member
    rw [member]
    exact awaits.complete done
  | cons entry entries ih =>
    rw [foldlM_cons] at ran
    obtain ⟨next, stepped, rest⟩ := except_bind_eq_ok.mp ran
    rw [segmentsFrom]
    cases opening : opens entry.1 with
    | true =>
      obtain ⟨none, rfl⟩ := ToolHistory.step_opens opening stepped
      rw [if_pos rfl]
      intro other member
      rcases mem_cons.mp member with rfl | member
      · exact awaits.complete none
      · have fresh : Awaits (opened bridge reading segment.turn entry) next.pending := by
          rw [none]
          exact ⟨.nil, nodup_nil⟩
        exact ih rest fresh known other member
    | false =>
      rw [if_neg Bool.false_ne_true]
      obtain ⟨more, later⟩ := @ToolHistory.step_inner reading _ _ _ _ opening stepped awaits known
      exact ih rest more later

/-- **Every segment of an accepted history answers its calls.** -/
theorem segments_complete {items : List Value} (validated : validateToolHistory items = .ok ()) :
    ∀ segment ∈ segments bridge reading items, segment.Complete := by
  obtain ⟨history, ran, checked⟩ := except_bind_eq_ok.mp validated
  have done : history.pending = [] := by
    by_contra some
    rw [if_pos some] at checked
    cases checked
  have entries : items.zipIdx.foldlM (fun history entry => ToolHistory.step history entry.1) {} = .ok history := by
    have same : (items.zipIdx.map Prod.fst).foldlM ToolHistory.step {} =
        items.zipIdx.foldlM (fun history entry => ToolHistory.step history entry.1) {} := foldlM_map
    rw [zipIdx_map_fst] at same
    exact same.symm.trans ran
  exact foldlM_complete entries done ⟨.nil, nodup_nil⟩ (by simp)

theorem foldlM_distinct {history last : ToolHistory}
    (ran : entries.foldlM (fun history entry => ToolHistory.step history entry.1) history = .ok last) :
    ((entries.filterMap callOf).map Prod.snd).Nodup ∧
      ∀ callId ∈ (entries.filterMap callOf).map Prod.snd, callId ∉ history.seen := by
  induction entries generalizing history with
  | nil => simp
  | cons entry entries ih =>
    rw [foldlM_cons] at ran
    obtain ⟨next, stepped, rest⟩ := except_bind_eq_ok.mp ran
    obtain ⟨distinct, unseen⟩ := ih rest
    cases call : callOf entry with
    | none =>
      rw [filterMap_cons_none call]
      have same : ∀ callId, callId ∈ history.seen → callId ∈ next.seen := ToolHistory.step_seen stepped
      exact ⟨distinct, fun callId member seen => unseen callId member (same callId seen)⟩
    | some found =>
      rw [filterMap_cons_some call, map_cons]
      obtain ⟨fresh, seen⟩ := ToolHistory.step_call stepped call
      have same : ∀ callId, callId ∈ history.seen → callId ∈ next.seen := ToolHistory.step_seen stepped
      refine ⟨nodup_cons.mpr ⟨fun again => unseen _ again seen, distinct⟩, fun callId member old => ?_⟩
      rcases mem_cons.mp member with rfl | member
      · exact fresh old
      · exact unseen callId member (same callId old)

end Byok.Codex
