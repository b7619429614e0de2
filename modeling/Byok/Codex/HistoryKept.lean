/-
**What a translated history keeps, and when.**

* `kept_iff` — a history is kept where rounds are apart and reasoning is taken in its own turn.
* `homed_place`, `anthropicStays_iff`, `chatStays_iff` — when it is.
* `history_kept_iff` — both formats.
-/

import Byok.Codex.HistorySegments
import Byok.Library.Pairs
import Mathlib.Data.List.Nodup
import Mathlib.Data.List.Perm.Basic

namespace Byok.Codex

open Library List

variable {bridge : Bridge} {reading : Reading} {segment : Segment} {items : List Value}

/-! ### The marks of placed segments -/

/-- A segment, and the reasoning that its message takes. -/
abbrev Placed := Segment × List (Nat × Mark)

def callMark (call : Nat × String) : Mark := .call call.1 call.2

def resultMark (result : Nat × String) : Mark := .result result.1 result.2

/-- The marks of a placed segment. -/
def placedMarks (placed : Placed) : List Mark :=
  placed.1.user ++ (placed.2.map Prod.snd ++ (placed.1.said ++ placed.1.answers.map resultMark))

theorem quiet_nil (quiet : segment.speaks = false) : segment.said = [] ∧ segment.answers = [] := by
  simp only [Segment.speaks, Bool.or_eq_false_iff, Bool.not_eq_false', List.isEmpty_iff,
    Option.isSome_eq_false_iff, Option.isNone_iff_eq_none] at quiet
  rw [Segment.said, Segment.answers, quiet.1, quiet.2]
  exact ⟨rfl, rfl⟩

theorem lineMarks_userLines (segment : Segment) : lineMarks segment.userLines = segment.user := by
  rw [Segment.userLines]
  split
  · rename_i none
    rw [none]
    rfl
  · show List.flatMap Prod.snd [_] = _
    rw [flatMap_cons, flatMap_nil, append_nil]

theorem lineMarks_answers (results : List (Nat × String)) :
    lineMarks (results.map answerLine) = results.map resultMark := by
  induction results with
  | nil => rfl
  | cons result results ih =>
    rw [map_cons, map_cons, ← ih]
    rfl

theorem lineMarks_placed {placed : Placed} (quiet : placed.1.speaks = false → placed.2 = []) :
    lineMarks (placedLines placed) = placedMarks placed := by
  rw [placedLines, lineMarks_append, lineMarks_userLines, Segment.lines, placedMarks]
  refine congrArg (_ ++ ·) ?_
  cases speaks : placed.1.speaks with
  | true =>
    rw [if_pos rfl]
    show (_ ++ _) ++ lineMarks _ = _
    rw [lineMarks_answers, append_assoc]
  | false =>
    rw [if_neg Bool.false_ne_true, quiet speaks, (quiet_nil speaks).1, (quiet_nil speaks).2]
    rfl

theorem lineMarks_allPlaced {placed : List Placed} (quiet : ∀ entry ∈ placed, entry.1.speaks = false → entry.2 = []) :
    lineMarks (placed.flatMap placedLines) = placed.flatMap placedMarks := by
  induction placed with
  | nil => rfl
  | cons entry placed ih =>
    rw [flatMap_cons, flatMap_cons, lineMarks_append, lineMarks_placed (quiet entry mem_cons_self),
      ih fun other member => quiet other (mem_cons_of_mem _ member)]

theorem place_segments (pending : List (Nat × Mark)) (segments : List Segment) :
    (place reading pending segments).1.map Prod.fst = segments := by
  induction segments generalizing pending with
  | nil => rfl
  | cons segment segments ih =>
    cases takes : segment.takes reading with
    | true => rw [place_takes takes, map_cons, ih]
    | false => rw [place_waits takes, map_cons, ih]

theorem takes_speaks (takes : segment.takes reading = true) : segment.speaks = true :=
  (Bool.and_eq_true_iff.mp takes).1

theorem place_quiet (pending : List (Nat × Mark)) (segments : List Segment) :
    ∀ entry ∈ (place reading pending segments).1, entry.1.speaks = false → entry.2 = [] := by
  induction segments generalizing pending with
  | nil => exact fun entry member => by cases member
  | cons segment segments ih =>
    cases takes : segment.takes reading with
    | true =>
      rw [place_takes takes]
      intro entry member quiet
      rcases mem_cons.mp member with rfl | member
      · rw [takes_speaks takes] at quiet
        cases quiet
      · exact ih _ entry member quiet
    | false =>
      rw [place_waits takes]
      intro entry member quiet
      rcases mem_cons.mp member with rfl | member
      · rfl
      · exact ih _ entry member quiet

theorem place_drawn (pending : List (Nat × Mark)) (segments : List Segment) :
    (∀ entry ∈ (place reading pending segments).1, ∀ piece ∈ entry.2,
      piece ∈ pending ∨ ∃ other ∈ segments, piece ∈ other.pieces) ∧
    ∀ piece ∈ (place reading pending segments).2, piece ∈ pending ∨ ∃ other ∈ segments, piece ∈ other.pieces := by
  induction segments generalizing pending with
  | nil => exact ⟨fun entry member => absurd member not_mem_nil, fun piece member => .inl member⟩
  | cons segment segments ih =>
    have deeper : ∀ {piece : Nat × Mark} {more : List (Nat × Mark)},
        piece ∈ pending ++ more ∨ (∃ other ∈ segments, piece ∈ other.pieces) → (∀ p ∈ more, p ∈ segment.pieces) →
          piece ∈ pending ∨ ∃ other ∈ segment :: segments, piece ∈ other.pieces := by
      rintro piece more (member | ⟨other, listed, inside⟩) here
      · rcases mem_append.mp member with old | new
        · exact .inl old
        · exact .inr ⟨segment, mem_cons_self, here piece new⟩
      · exact .inr ⟨other, mem_cons_of_mem _ listed, inside⟩
    cases takes : segment.takes reading with
    | true =>
      rw [place_takes takes]
      obtain ⟨placed, left⟩ := ih []
      refine ⟨fun entry member piece inside => ?_, fun piece member => ?_⟩
      · rcases mem_cons.mp member with rfl | member
        · exact deeper (.inl inside) fun _ here => here
        · exact (placed entry member piece inside).elim (fun none => absurd none not_mem_nil)
            fun ⟨other, listed, here⟩ => .inr ⟨other, mem_cons_of_mem _ listed, here⟩
      · exact (left piece member).elim (fun none => absurd none not_mem_nil)
          fun ⟨other, listed, here⟩ => .inr ⟨other, mem_cons_of_mem _ listed, here⟩
    | false =>
      rw [place_waits takes]
      obtain ⟨placed, left⟩ := ih (pending ++ segment.pieces)
      refine ⟨fun entry member piece inside => ?_, fun piece member => deeper (left piece member) fun _ here => here⟩
      rcases mem_cons.mp member with rfl | member
      · cases inside
      · exact deeper (placed entry member piece inside) fun _ here => here

/-! ### Kinds -/

theorem pieces_reasoning (marked : segment.Marked) {piece : Nat × Mark} (member : piece ∈ segment.pieces) :
    ∃ origin, piece.2 = .reasoning origin := by
  obtain ⟨mark, thought, rfl⟩ := mem_map.mp member
  exact marked.thoughts mark thought

/-- What is placed: marked segments, and reasoning of the segments. -/
structure Placement (all : List Segment) (placed : List Placed) : Prop where
  segments : placed.map Prod.fst = all
  marked : ∀ segment ∈ all, segment.Marked
  drawn : ∀ entry ∈ placed, ∀ piece ∈ entry.2, ∃ other ∈ all, piece ∈ other.pieces

namespace Placement

variable {placed : List Placed} {all : List Segment}

theorem member (placement : Placement all placed) {entry : Placed} (inside : entry ∈ placed) : entry.1 ∈ all :=
  placement.segments ▸ mem_map_of_mem inside

theorem taken (placement : Placement all placed) {entry : Placed} (inside : entry ∈ placed) :
    ∀ mark ∈ entry.2.map Prod.snd, ∃ origin, mark = .reasoning origin := by
  intro mark listed
  obtain ⟨piece, here, rfl⟩ := mem_map.mp listed
  obtain ⟨other, known, drawn⟩ := placement.drawn entry inside piece here
  exact pieces_reasoning (placement.marked other known) drawn

end Placement

theorem filterMap_none {α β : Type} {f : α → Option β} {list : List α} (none : ∀ a ∈ list, f a = none) :
    list.filterMap f = [] := by
  rw [filterMap_eq_nil_iff]
  exact none

theorem placed_views {entry : Placed} (marked : entry.1.Marked)
    (taken : ∀ mark ∈ entry.2.map Prod.snd, ∃ origin, mark = .reasoning origin) :
    (placedMarks entry).filterMap Mark.call? = entry.1.calls ∧
      (placedMarks entry).filterMap Mark.result? = entry.1.answers ∧
      (placedMarks entry).filter Mark.isSpoken = entry.1.spoken := by
  have calls : ∀ calls : List (Nat × String),
      (calls.map fun call => Mark.call call.1 call.2).filterMap Mark.call? = calls ∧
        (calls.map fun call => Mark.call call.1 call.2).filterMap Mark.result? = [] ∧
        (calls.map fun call => Mark.call call.1 call.2).filter Mark.isSpoken = [] := by
    intro calls
    simp [filterMap_map, Function.comp_def, Mark.call?, Mark.result?, Mark.isSpoken, filter_map]
  have answers : ∀ results : List (Nat × String),
      (results.map resultMark).filterMap Mark.call? = [] ∧
        (results.map resultMark).filterMap Mark.result? = results ∧
        (results.map resultMark).filter Mark.isSpoken = [] := by
    intro results
    simp [filterMap_map, Function.comp_def, resultMark, Mark.call?, Mark.result?, Mark.isSpoken,
      filter_map]
  have texts : ∀ texts : List Nat, (texts.map Mark.text).filterMap Mark.call? = [] ∧
      (texts.map Mark.text).filterMap Mark.result? = [] ∧
      (texts.map Mark.text).filter Mark.isSpoken = texts.map .text := by
    intro texts
    simp [filterMap_map, Function.comp_def, Mark.call?, Mark.result?, Mark.isSpoken, filter_map]
  have users : entry.1.user.filterMap Mark.call? = [] ∧ entry.1.user.filterMap Mark.result? = [] ∧
      entry.1.user.filter Mark.isSpoken = entry.1.user := by
    refine ⟨filterMap_none fun mark member => ?_, filterMap_none fun mark member => ?_,
      filter_eq_self.mpr fun mark member => ?_⟩ <;>
    · obtain ⟨origin, rfl⟩ := marked.user mark member
      rfl
  have thoughts : (entry.2.map Prod.snd).filterMap Mark.call? = [] ∧
      (entry.2.map Prod.snd).filterMap Mark.result? = [] ∧ (entry.2.map Prod.snd).filter Mark.isSpoken = [] := by
    refine ⟨filterMap_none fun mark member => ?_, filterMap_none fun mark member => ?_,
      filter_eq_nil_iff.mpr fun mark member => ?_⟩
    · obtain ⟨origin, rfl⟩ := taken mark member
      rfl
    · obtain ⟨origin, rfl⟩ := taken mark member
      rfl
    · obtain ⟨origin, rfl⟩ := taken mark member
      exact Bool.false_ne_true
  simp only [placedMarks, Segment.said, Segment.spoken, filterMap_append, filter_append, users, thoughts,
    texts, calls, answers, nil_append, append_nil]
  exact ⟨trivial, trivial, trivial⟩

/-! ### Calls, results and texts -/

theorem answer?_ok {call result : Nat × String} (found : segment.answer? call = some result) :
    result ∈ segment.results ∧ result.2 = call.2 := by
  refine ⟨mem_of_find?_eq_some found, ?_⟩
  have here := find?_some found
  rwa [decide_eq_true_eq] at here

theorem answers_perm (complete : segment.Complete) (distinct : (segment.calls.map Prod.snd).Nodup) :
    segment.answers.Perm segment.results := by
  have unique : (segment.results.map Prod.snd).Nodup := complete.nodup_iff.mp distinct
  have found : ∀ call ∈ segment.calls, ∃ result, segment.answer? call = some result := by
    intro call member
    have listed := complete.mem_iff.mp (mem_map_of_mem member)
    obtain ⟨result, inside, same⟩ := mem_map.mp listed
    cases known : segment.answer? call with
    | some result => exact ⟨result, rfl⟩
    | none =>
      have none := find?_eq_none.mp known result inside
      rw [decide_eq_true_eq] at none
      exact absurd same none
  have ids : segment.answers.map Prod.snd = segment.calls.map Prod.snd := by
    have each : ∀ calls : List (Nat × String), (∀ call ∈ calls, ∃ result, segment.answer? call = some result) →
        (calls.filterMap segment.answer?).map Prod.snd = calls.map Prod.snd := by
      intro calls
      induction calls with
      | nil => exact fun _ => rfl
      | cons call calls ih =>
        intro all
        obtain ⟨result, known⟩ := all call mem_cons_self
        rw [filterMap_cons_some known, map_cons, map_cons,
          ih fun other member => all other (mem_cons_of_mem _ member), (answer?_ok known).2]
    exact each segment.calls found
  have once : segment.answers.Nodup := List.Nodup.of_map Prod.snd (ids ▸ distinct)
  refine (perm_ext_iff_of_nodup once (List.Nodup.of_map Prod.snd unique)).mpr
    fun result => ⟨fun member => ?_, fun member => ?_⟩
  · obtain ⟨call, -, known⟩ := mem_filterMap.mp member
    exact (answer?_ok known).1
  · have listed := complete.mem_iff.mpr (mem_map_of_mem member)
    obtain ⟨call, inside, same⟩ := mem_map.mp listed
    obtain ⟨other, known⟩ := found call inside
    obtain ⟨here, equal⟩ := answer?_ok known
    have : other = result := inj_on_of_nodup_map unique here member (equal.trans same)
    exact mem_filterMap.mpr ⟨call, inside, this ▸ known⟩

namespace Placement

variable {placed : List Placed} {all : List Segment}

theorem flatMap_segments {α : Type} (placement : Placement all placed) (f : Segment → List α) :
    (placed.flatMap fun entry => f entry.1) = all.flatMap f := by
  rw [← placement.segments, flatMap_map]

theorem views (placement : Placement all placed) :
    (placed.flatMap placedMarks).filterMap Mark.call? = all.flatMap Segment.calls ∧
      (placed.flatMap placedMarks).filterMap Mark.result? = all.flatMap Segment.answers ∧
      (placed.flatMap placedMarks).filter Mark.isSpoken = all.flatMap Segment.spoken := by
  have each : ∀ entry ∈ placed, _ := fun entry inside =>
    placed_views (placement.marked _ (placement.member inside)) (placement.taken inside)
  rw [filterMap_flatMap, filterMap_flatMap, filter_flatMap, ← placement.flatMap_segments,
    ← placement.flatMap_segments, ← placement.flatMap_segments]
  exact ⟨flatMap_congr fun entry inside => (each entry inside).1,
    flatMap_congr fun entry inside => (each entry inside).2.1,
    flatMap_congr fun entry inside => (each entry inside).2.2⟩

theorem mark_cases (placement : Placement all placed) {entry : Placed} (inside : entry ∈ placed) {mark : Mark}
    (member : mark ∈ placedMarks entry) :
    ((∃ origin, mark = .user origin) ∧ mark ∈ entry.1.user) ∨
      ((∃ origin, mark = .reasoning origin) ∧ mark ∈ entry.2.map Prod.snd) ∨
      (∃ origin, mark = .text origin) ∨
      (∃ call ∈ entry.1.calls, mark = .call call.1 call.2) ∨
      ∃ result ∈ entry.1.answers, mark = resultMark result := by
  rw [placedMarks, Segment.said, mem_append, mem_append, mem_append, mem_append] at member
  rcases member with user | thought | (text | call) | result
  · exact .inl ⟨(placement.marked _ (placement.member inside)).user mark user, user⟩
  · exact .inr (.inl ⟨placement.taken inside mark thought, thought⟩)
  · obtain ⟨origin, -, rfl⟩ := mem_map.mp text
    exact .inr (.inr (.inl ⟨origin, rfl⟩))
  · obtain ⟨found, listed, rfl⟩ := mem_map.mp call
    exact .inr (.inr (.inr (.inl ⟨found, listed, rfl⟩)))
  · obtain ⟨found, listed, rfl⟩ := mem_map.mp result
    exact .inr (.inr (.inr (.inr ⟨found, listed, rfl⟩)))

theorem answered (placement : Placement all placed) {origin : Nat} {callId : String}
    (member : .result origin callId ∈ placed.flatMap placedMarks) :
    ∃ before place calls results after, placed.flatMap placedMarks =
        before ++ .call place callId :: (calls ++ (results ++ .result origin callId :: after)) ∧
      (∀ mark ∈ calls, mark.call?.isSome = true) ∧ ∀ mark ∈ results, mark.result?.isSome = true := by
  obtain ⟨entry, inside, here⟩ := mem_flatMap.mp member
  have listed : (origin, callId) ∈ entry.1.answers := by
    rcases placement.mark_cases inside here with ⟨⟨_, equal⟩, _⟩ | ⟨⟨_, equal⟩, _⟩ | ⟨_, equal⟩ | ⟨_, _, equal⟩ |
      ⟨result, known, equal⟩
    · cases equal
    · cases equal
    · cases equal
    · cases equal
    · obtain ⟨rfl, rfl⟩ := Mark.result.inj equal
      exact known
  obtain ⟨call, known, answer⟩ := mem_filterMap.mp listed
  obtain ⟨front, back, split⟩ := append_of_mem inside
  obtain ⟨first, second, calls⟩ := append_of_mem known
  have same : call.2 = callId := (answer?_ok answer).2.symm
  have marks : placedMarks entry = (entry.1.user ++ (entry.2.map Prod.snd ++
      (entry.1.text.toList.map .text ++ first.map callMark))) ++
      .call call.1 callId :: (second.map callMark ++ ((first.filterMap entry.1.answer?).map resultMark ++
          .result origin callId :: (second.filterMap entry.1.answer?).map resultMark)) := by
    rw [placedMarks, Segment.said, Segment.answers, calls, map_append, map_cons, filterMap_append,
      filterMap_cons_some answer, map_append, map_cons, same]
    simp only [append_assoc, cons_append]
    rfl
  refine ⟨front.flatMap placedMarks ++ (entry.1.user ++ (entry.2.map Prod.snd ++
      (entry.1.text.toList.map .text ++ first.map callMark))), call.1, second.map callMark,
    (first.filterMap entry.1.answer?).map resultMark,
    (second.filterMap entry.1.answer?).map resultMark ++ back.flatMap placedMarks, ?_, ?_, ?_⟩
  · rw [split, flatMap_append, flatMap_cons, marks]
    simp only [append_assoc, cons_append]
  · intro mark inside
    obtain ⟨other, -, rfl⟩ := mem_map.mp inside
    rfl
  · intro mark inside
    obtain ⟨other, -, rfl⟩ := mem_map.mp inside
    rfl

end Placement

/-! ### Rounds and turns -/

/-- Every piece of reasoning is taken in its own turn. -/
def Homed (placed : List Placed) : Prop := ∀ entry ∈ placed, ∀ piece ∈ entry.2, piece.1 = entry.1.turn

/-- The order of the segments of a history, and of what they hold. -/
structure Ordered (all : List Segment) : Prop where
  before : all.Pairwise Before
  turns : all.Pairwise TurnBefore
  begun : ∀ segment ∈ all, segment.turn = 0 ∨ ∃ first ∈ all, first.user ≠ [] ∧ first.turn = segment.turn
  userFirst : ∀ segment ∈ all, ∀ mark ∈ segment.user, ∀ thought ∈ segment.thoughts, mark.origin < thought.origin

theorem segments_ordered (items : List Value) : Ordered (segments bridge reading items) where
  before := segments_before items
  turns := (segments_turns items).1
  begun := (segments_turns items).2
  userFirst := segments_user_first items

theorem origin_user {mark : Mark} (member : mark ∈ segment.user) : mark.origin ∈ segment.origins := by
  simp only [Segment.origins, mem_append]
  exact .inl (.inl (.inl (mem_map_of_mem member)))

theorem origin_call {call : Nat × String} (member : call ∈ segment.calls) : call.1 ∈ segment.origins := by
  simp only [Segment.origins, mem_append]
  exact .inl (.inl (.inr (mem_map_of_mem member)))

theorem origin_result {result : Nat × String} (member : result ∈ segment.results) :
    result.1 ∈ segment.origins := by
  simp only [Segment.origins, mem_append]
  exact .inl (.inr (mem_map_of_mem member))

theorem origin_thought {mark : Mark} (member : mark ∈ segment.thoughts) : mark.origin ∈ segment.origins := by
  simp only [Segment.origins, mem_append]
  exact .inr (mem_map_of_mem member)

theorem Ordered.cases {all : List Segment} (ordered : Ordered all) {first second : Segment} (left : first ∈ all)
    (right : second ∈ all) : first = second ∨ (Before first second ∧ TurnBefore first second) ∨
      (Before second first ∧ TurnBefore second first) := by
  rcases pair_total left right with same | pair | pair
  · exact .inl same
  · exact .inr (.inl ⟨pairwise_iff_forall_sublist.mp ordered.before pair,
      pairwise_iff_forall_sublist.mp ordered.turns pair⟩)
  · exact .inr (.inr ⟨pairwise_iff_forall_sublist.mp ordered.before pair,
      pairwise_iff_forall_sublist.mp ordered.turns pair⟩)

theorem Ordered.user_before {all : List Segment} (ordered : Ordered all) {first other : Segment} (left : first ∈ all)
    (right : other ∈ all) (turn : first.turn ≤ other.turn) {mark thought : Mark} (user : mark ∈ first.user)
    (member : thought ∈ other.thoughts) : mark.origin < thought.origin := by
  rcases ordered.cases left right with rfl | ⟨before, -⟩ | ⟨-, -, higher⟩
  · exact ordered.userFirst first left mark user thought member
  · exact before _ (origin_user user) _ (origin_thought member)
  · have := higher (ne_nil_of_mem user)
    omega

theorem Ordered.user_behind {all : List Segment} (ordered : Ordered all) {first other : Segment} (left : first ∈ all)
    (right : other ∈ all) (turn : other.turn < first.turn) {mark thought : Mark} (user : mark ∈ first.user)
    (member : thought ∈ other.thoughts) : thought.origin < mark.origin := by
  rcases ordered.cases left right with rfl | ⟨-, lower, -⟩ | ⟨before, -⟩
  · omega
  · omega
  · exact before _ (origin_thought member) _ (origin_user user)

namespace Placement

variable {placed : List Placed} {all : List Segment}

theorem pair (placement : Placement all placed) {first second : Placed} (pair : [first, second].Sublist placed) :
    [first.1, second.1].Sublist all := placement.segments ▸ pair.map Prod.fst

theorem placed_of (placement : Placement all placed) {segment : Segment} (member : segment ∈ all) :
    ∃ entry ∈ placed, entry.1 = segment := by
  rw [← placement.segments] at member
  obtain ⟨entry, inside, same⟩ := mem_map.mp member
  exact ⟨entry, inside, same⟩

theorem user_mark (placement : Placement all placed) {entry : Placed} (inside : entry ∈ placed) {origin : Nat}
    (member : .user origin ∈ placedMarks entry) : .user origin ∈ entry.1.user := by
  rcases placement.mark_cases inside member with ⟨-, here⟩ | ⟨⟨_, equal⟩, _⟩ | ⟨_, equal⟩ | ⟨_, _, equal⟩ |
    ⟨_, _, equal⟩
  · exact here
  all_goals cases equal

theorem thought_mark (placement : Placement all placed) {entry : Placed} (inside : entry ∈ placed) {origin : Nat}
    (member : .reasoning origin ∈ placedMarks entry) :
    ∃ turn, (turn, .reasoning origin) ∈ entry.2 ∧
      ∃ other ∈ all, other.turn = turn ∧ .reasoning origin ∈ other.thoughts := by
  rcases placement.mark_cases inside member with ⟨⟨_, equal⟩, _⟩ | ⟨-, here⟩ | ⟨_, equal⟩ | ⟨_, _, equal⟩ |
    ⟨_, _, equal⟩
  · cases equal
  · obtain ⟨⟨turn, mark⟩, listed, same⟩ := mem_map.mp here
    obtain rfl : mark = .reasoning origin := same
    obtain ⟨other, known, drawn⟩ := placement.drawn entry inside _ listed
    obtain ⟨thought, member, equal⟩ := mem_map.mp drawn
    obtain ⟨rfl, rfl⟩ := Prod.mk.inj equal
    exact ⟨other.turn, listed, other, known, rfl, member⟩
  all_goals cases equal

theorem no_turned (placement : Placement all placed) {entry : Placed} (inside : entry ∈ placed) {user thought : Nat} :
    ¬ [.reasoning thought, .user user].Sublist (placedMarks entry) := by
  intro pair
  have marked := (placement.marked _ (placement.member inside)).user
  rw [placedMarks, pair_append] at pair
  have front : ∀ origin, Mark.reasoning origin ∉ entry.1.user := fun origin member => by
    obtain ⟨_, equal⟩ := marked _ member
    cases equal
  rcases pair with first | rest | ⟨left, -⟩
  · exact front _ (pair_left first)
  · have behind := pair_right rest
    rw [mem_append, mem_append] at behind
    rcases behind with taken | said | answers
    · obtain ⟨_, equal⟩ := placement.taken inside _ taken
      cases equal
    · rw [Segment.said, mem_append] at said
      rcases said with text | call
      · obtain ⟨_, -, equal⟩ := mem_map.mp text
        cases equal
      · obtain ⟨_, -, equal⟩ := mem_map.mp call
        cases equal
    · obtain ⟨_, -, equal⟩ := mem_map.mp answers
      cases equal
  · exact front _ left

/-- **Reasoning stays between the messages of the user where each piece is taken in its own turn.** -/
theorem inTurn_iff (placement : Placement all placed) (ordered : Ordered all) :
    (∀ user thought, ([.user user, .reasoning thought].Sublist (placed.flatMap placedMarks) → user < thought) ∧
      ([.reasoning thought, .user user].Sublist (placed.flatMap placedMarks) → thought < user)) ↔
    Homed placed := by
  constructor
  · intro inTurn entry inside piece listed
    obtain ⟨other, known, drawn⟩ := placement.drawn entry inside piece listed
    obtain ⟨thought, member, rfl⟩ := mem_map.mp drawn
    obtain ⟨origin, rfl⟩ := (placement.marked other known).thoughts thought member
    have here : .reasoning origin ∈ placedMarks entry := by
      rw [placedMarks, mem_append, mem_append]
      exact .inr (.inl (mem_map_of_mem (f := Prod.snd) listed))
    have place := placement.member inside
    by_contra apart
    -- the turn that is the later of the two begins with a message of the user
    rcases Nat.lt_or_gt_of_ne apart with less | more
    · obtain ⟨first, begins, some, turn⟩ := (ordered.begun _ place).resolve_left (by omega)
      obtain ⟨mark, user⟩ := exists_mem_of_ne_nil _ some
      obtain ⟨u, rfl⟩ := (placement.marked first begins).user mark user
      have behind := ordered.user_behind begins known (by omega) user member
      obtain ⟨start, listed, rfl⟩ := placement.placed_of begins
      have shown : .user u ∈ placedMarks start := mem_append_left _ user
      have front : [.user u, .reasoning origin].Sublist (placed.flatMap placedMarks) := by
        rcases pair_total listed inside with rfl | pair | pair
        · refine pair_flatMap.mpr (.inl ⟨start, inside, ?_⟩)
          rw [placedMarks, pair_append]
          refine .inr (.inr ⟨user, ?_⟩)
          rw [mem_append]
          exact .inl (mem_map_of_mem (f := Prod.snd) ‹_›)
        · exact pair_flatMap.mpr (.inr ⟨start, entry, pair, shown, here⟩)
        · have := (pairwise_iff_forall_sublist.mp ordered.turns (placement.pair pair)).2 some
          omega
      have := (inTurn u origin).1 front
      exact absurd behind (Nat.lt_asymm this)
    · obtain ⟨first, begins, some, turn⟩ := (ordered.begun _ known).resolve_left (by omega)
      obtain ⟨mark, user⟩ := exists_mem_of_ne_nil _ some
      obtain ⟨u, rfl⟩ := (placement.marked first begins).user mark user
      have front := ordered.user_before begins known (by omega) user member
      obtain ⟨start, listed, rfl⟩ := placement.placed_of begins
      have shown : .user u ∈ placedMarks start := mem_append_left _ user
      have behind : [.reasoning origin, .user u].Sublist (placed.flatMap placedMarks) := by
        rcases pair_total inside listed with rfl | pair | pair
        · omega
        · exact pair_flatMap.mpr (.inr ⟨entry, start, pair, here, shown⟩)
        · have := (pairwise_iff_forall_sublist.mp ordered.turns (placement.pair pair)).1
          omega
      have := (inTurn u origin).2 behind
      exact absurd front (Nat.lt_asymm this)
  · intro homed user thought
    constructor
    · intro pair
      rcases pair_flatMap.mp pair with ⟨entry, inside, here⟩ | ⟨first, second, order, left, right⟩
      · have user := placement.user_mark inside (pair_left here)
        obtain ⟨turn, listed, other, known, rfl, member⟩ := placement.thought_mark inside (pair_right here)
        exact ordered.user_before (placement.member inside) known (Nat.le_of_eq (homed entry inside _ listed).symm)
          user member
      · have user := placement.user_mark (pair_left order) left
        obtain ⟨turn, listed, other, known, rfl, member⟩ := placement.thought_mark (pair_right order) right
        have up := (pairwise_iff_forall_sublist.mp ordered.turns (placement.pair order)).1
        exact ordered.user_before (placement.member (pair_left order)) known
          (up.trans (Nat.le_of_eq (homed second (pair_right order) _ listed).symm)) user member
    · intro pair
      rcases pair_flatMap.mp pair with ⟨entry, inside, here⟩ | ⟨first, second, order, left, right⟩
      · exact absurd here (placement.no_turned inside)
      · have user := placement.user_mark (pair_right order) right
        obtain ⟨turn, listed, other, known, rfl, member⟩ := placement.thought_mark (pair_left order) left
        have up := (pairwise_iff_forall_sublist.mp ordered.turns (placement.pair order)).2
          (ne_nil_of_mem user)
        have same := homed first (pair_left order) _ listed
        exact ordered.user_behind (placement.member (pair_right order)) known (by omega) user member

theorem distinct_inside (distinct : ((all.flatMap Segment.calls).map Prod.snd).Nodup) {segment : Segment}
    (member : segment ∈ all) : (segment.calls.map Prod.snd).Nodup :=
  distinct.sublist ((sublist_flatten_of_mem (mem_map_of_mem member)).map Prod.snd)

/-- **Rounds stay apart where no segment has a call behind a result.** -/
theorem rounds_iff (placement : Placement all placed) (ordered : Ordered all)
    (complete : ∀ segment ∈ all, segment.Complete) (distinct : ((all.flatMap Segment.calls).map Prod.snd).Nodup) :
    (∀ result ∈ all.flatMap Segment.results, ∀ call ∈ all.flatMap Segment.calls, result.1 < call.1 →
      [.result result.1 result.2, .call call.1 call.2].Sublist (placed.flatMap placedMarks)) ↔ RoundsApart all := by
  have inside := fun segment (member : segment ∈ all) => distinct_inside distinct member
  have shows : ∀ entry ∈ placed, ∀ result ∈ entry.1.results, resultMark result ∈ placedMarks entry := by
    intro entry listed result member
    have known := placement.member listed
    rw [placedMarks, mem_append, mem_append, mem_append]
    exact .inr (.inr (.inr (mem_map_of_mem
      ((answers_perm (complete _ known) (inside _ known)).mem_iff.mpr member))))
  have calls : ∀ entry ∈ placed, ∀ call ∈ entry.1.calls, callMark call ∈ placedMarks entry := by
    intro entry _ call member
    rw [placedMarks, Segment.said, mem_append, mem_append, mem_append, mem_append]
    exact .inr (.inr (.inl (.inr (mem_map_of_mem member))))
  constructor
  · intro rounds segment member call called result answered turned
    obtain ⟨entry, listed, rfl⟩ := placement.placed_of member
    have front := rounds result (mem_flatMap.mpr ⟨entry.1, member, answered⟩) call
      (mem_flatMap.mpr ⟨entry.1, member, called⟩) turned
    have behind : [callMark call, resultMark result].Sublist (placed.flatMap placedMarks) := by
      refine pair_flatMap.mpr (.inl ⟨entry, listed, ?_⟩)
      rw [placedMarks, pair_append, pair_append, pair_append]
      refine .inr (.inl (.inr (.inl (.inr (.inr ⟨?_, ?_⟩)))))
      · rw [Segment.said, mem_append]
        exact .inr (mem_map_of_mem called)
      · exact mem_map_of_mem
          ((answers_perm (complete _ member) (inside _ member)).mem_iff.mpr answered)
    obtain ⟨callView, resultView, -⟩ := placement.views
    rcases pair_turned front behind with twice | twice
    · have double := twice.filterMap Mark.result?
      rw [resultView] at double
      have once : (all.flatMap Segment.answers).Nodup := by
        refine ((List.Perm.flatMap_left all fun segment member =>
          answers_perm (complete segment member) (inside segment member)).nodup_iff).mpr ?_
        refine List.Nodup.of_map Prod.snd ?_
        have same : ((all.flatMap Segment.calls).map Prod.snd).Perm ((all.flatMap Segment.results).map Prod.snd) := by
          rw [map_flatMap, map_flatMap]
          exact List.Perm.flatMap_left all complete
        exact same.nodup_iff.mp distinct
      exact (nodup_iff_sublist.mp once) _ double
    · have double := twice.filterMap Mark.call?
      rw [callView] at double
      exact (nodup_iff_sublist.mp (List.Nodup.of_map Prod.snd distinct)) _ double
  · intro apart result answered call called behind
    obtain ⟨first, begins, answered⟩ := mem_flatMap.mp answered
    obtain ⟨second, ends, called⟩ := mem_flatMap.mp called
    obtain ⟨entry, listed, rfl⟩ := placement.placed_of begins
    obtain ⟨other, known, rfl⟩ := placement.placed_of ends
    rcases pair_total listed known with rfl | pair | pair
    · exact absurd behind (apart _ begins call called result answered)
    · exact pair_flatMap.mpr (.inr ⟨entry, other, pair, shows entry listed result answered,
        calls other known call called⟩)
    · have before := pairwise_iff_forall_sublist.mp ordered.before (placement.pair pair)
      have := before _ (origin_call called) _ (origin_result answered)
      omega

/-- **What is kept, and when.** -/
theorem kept_iff (placement : Placement (Codex.segments bridge reading items) placed)
    (validated : validateToolHistory items = .ok ()) :
    Kept bridge reading items (placed.flatMap placedMarks) ↔
      RoundsApart (Codex.segments bridge reading items) ∧ Homed placed := by
  have ordered := @segments_ordered bridge reading items
  have complete := @segments_complete bridge reading items validated
  obtain ⟨calls, results, spoken⟩ := placement.views
  have distinct : (((Codex.segments bridge reading items).flatMap Segment.calls).map Prod.snd).Nodup := by
    rw [segments_calls]
    obtain ⟨history, ran, -⟩ := except_bind_eq_ok.mp validated
    have same : (items.zipIdx.map Prod.fst).foldlM ToolHistory.step {} =
        items.zipIdx.foldlM (fun history entry => ToolHistory.step history entry.1) {} := foldlM_map
    rw [zipIdx_map_fst] at same
    exact (foldlM_distinct (same.symm.trans ran)).1
  rw [segments_calls] at calls
  rw [segments_spoken] at spoken
  have rounds := placement.rounds_iff ordered complete distinct
  rw [segments_results, segments_calls] at rounds
  rw [← placement.inTurn_iff ordered, ← rounds]
  refine ⟨fun kept => ⟨kept.rounds, kept.inTurn⟩, fun holds => ⟨calls, ?_, ?_, fun _ _ => placement.answered, spoken,
    holds.1, holds.2⟩⟩
  · rwa [segments_calls] at distinct
  · rw [results, ← segments_results]
    exact List.Perm.flatMap_left _ fun segment member => answers_perm (complete segment member)
      (distinct_inside distinct member)

end Placement

end Byok.Codex
