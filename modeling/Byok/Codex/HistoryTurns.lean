/-
**When reasoning is taken in its own turn.**

* `homed_place` — each piece by the first segment behind it that takes.
* `anthropicStays_iff`, `chatStays_iff` — no turn leaves reasoning to a later one.
* `attach_placed` — Chat attaches what is left over to its home.
* `chat_kept_iff` — when Chat keeps a history.
-/

import Byok.Codex.HistoryKept

namespace Byok.Codex

open Library List

variable {bridge : Bridge} {reading : Reading} {owner : String} {segment : Segment} {items : List Value}
variable {all : List Segment} {placed : List Placed}

/-! ### The first that takes -/

/-- The first of the segments that takes reasoning is of a turn, if there is one. -/
def FirstTakes (reading : Reading) (segments : List Segment) (turn : Nat) : Prop :=
  ∀ first ∈ segments.find? (Segment.takes reading), first.turn = turn

theorem firstTakes_takes (takes : segment.takes reading = true) (segments : List Segment) (turn : Nat) :
    FirstTakes reading (segment :: segments) turn ↔ segment.turn = turn := by
  rw [FirstTakes, find?_cons_of_pos takes]
  exact ⟨fun all => all segment rfl, fun same first equal => Option.some.inj equal ▸ same⟩

theorem firstTakes_waits (waits : segment.takes reading = false) (segments : List Segment) (turn : Nat) :
    FirstTakes reading (segment :: segments) turn ↔ FirstTakes reading segments turn := by
  rw [FirstTakes, find?_cons_of_neg (by simp [waits]), FirstTakes]

theorem pieces_turn {piece : Nat × Mark} (member : piece ∈ segment.pieces) : piece.1 = segment.turn := by
  obtain ⟨_, -, rfl⟩ := mem_map.mp member
  rfl

theorem pieces_forall {P : Nat → Prop} :
    (∀ piece ∈ segment.pieces, P piece.1) ↔ (segment.thoughts ≠ [] → P segment.turn) := by
  constructor
  · intro holds some
    obtain ⟨mark, member⟩ := exists_mem_of_ne_nil _ some
    exact holds (segment.turn, mark) (mem_map_of_mem member)
  · intro holds piece member
    rw [pieces_turn member]
    obtain ⟨mark, inside, -⟩ := mem_map.mp member
    exact holds (ne_nil_of_mem inside)

/-- **Each piece is taken by the first segment behind it that takes.** -/
theorem homed_place (pending : List (Nat × Mark)) (segments : List Segment) :
    Homed (place reading pending segments).1 ↔ (∀ piece ∈ pending, FirstTakes reading segments piece.1) ∧
      ∀ before segment after, segments = before ++ segment :: after → segment.thoughts ≠ [] →
        FirstTakes reading (segment :: after) segment.turn := by
  induction segments generalizing pending with
  | nil =>
    refine ⟨fun _ => ⟨fun _ _ _ none => (by cases none), fun before segment after split => ?_⟩, fun _ => ?_⟩
    · exact absurd split.symm (by simp)
    · exact fun entry member => absurd member not_mem_nil
  | cons segment segments ih =>
    rw [splits_cons (P := fun segment after => segment.thoughts ≠ [] →
      FirstTakes reading (segment :: after) segment.turn)]
    cases takes : segment.takes reading with
    | true =>
      rw [place_takes takes]
      have here : Homed ((segment, pending ++ segment.pieces) :: (place reading [] segments).1) ↔
          (∀ piece ∈ pending ++ segment.pieces, piece.1 = segment.turn) ∧ Homed (place reading [] segments).1 :=
        forall_mem_cons
      rw [here, ih]
      simp only [firstTakes_takes takes]
      constructor
      · rintro ⟨same, -, rest⟩
        exact ⟨fun piece member => (same piece (mem_append_left _ member)).symm, fun _ => trivial, rest⟩
      · rintro ⟨same, -, rest⟩
        refine ⟨fun piece member => ?_, fun _ none => absurd none not_mem_nil, rest⟩
        rcases mem_append.mp member with old | new
        · exact (same piece old).symm
        · exact pieces_turn new
    | false =>
      rw [place_waits takes]
      have here : Homed ((segment, []) :: (place reading (pending ++ segment.pieces) segments).1) ↔
          Homed (place reading (pending ++ segment.pieces) segments).1 := by
        refine forall_mem_cons.trans ⟨And.right, fun rest => ⟨?_, rest⟩⟩
        exact fun _ none => absurd none not_mem_nil
      rw [here, ih]
      simp only [firstTakes_waits takes, forall_mem_append]
      rw [pieces_forall (P := fun turn => FirstTakes reading segments turn), and_assoc]

theorem mem_left {piece : Nat × Mark} (pending : List (Nat × Mark)) (segments : List Segment) :
    piece ∈ (place reading pending segments).2 ↔
      (piece ∈ pending ∧ ∀ other ∈ segments, other.takes reading = false) ∨
        ∃ before segment after, segments = before ++ segment :: after ∧ piece ∈ segment.pieces ∧
          ∀ other ∈ segment :: after, other.takes reading = false := by
  induction segments generalizing pending with
  | nil =>
    constructor
    · exact fun member => .inl ⟨member, fun _ none => absurd none not_mem_nil⟩
    · rintro (⟨member, -⟩ | ⟨before, segment, after, split, -⟩)
      · exact member
      · exact absurd split.symm (by simp)
  | cons segment segments ih =>
    cases takes : segment.takes reading with
    | true =>
      rw [place_takes takes, ih]
      constructor
      · rintro (⟨none, -⟩ | ⟨before, other, after, rfl, member, waits⟩)
        · cases none
        · exact .inr ⟨segment :: before, other, after, rfl, member, waits⟩
      · rintro (⟨-, waits⟩ | ⟨before, other, after, split, member, waits⟩)
        · have := waits segment mem_cons_self
          rw [takes] at this
          cases this
        · cases before with
          | nil =>
            obtain ⟨rfl, rfl⟩ := List.cons.inj split
            have := waits segment mem_cons_self
            rw [takes] at this
            cases this
          | cons first before =>
            obtain ⟨rfl, tail⟩ := List.cons.inj split
            exact .inr ⟨before, other, after, tail, member, waits⟩
    | false =>
      rw [place_waits takes, ih]
      constructor
      · rintro (⟨member, waits⟩ | ⟨before, other, after, rfl, member, waits⟩)
        · have whole : ∀ other ∈ segment :: segments, other.takes reading = false :=
            forall_mem_cons.mpr ⟨takes, waits⟩
          rcases mem_append.mp member with old | new
          · exact .inl ⟨old, whole⟩
          · exact .inr ⟨[], segment, segments, rfl, new, whole⟩
        · exact .inr ⟨segment :: before, other, after, rfl, member, waits⟩
      · rintro (⟨member, waits⟩ | ⟨before, other, after, split, member, waits⟩)
        · exact .inl ⟨mem_append_left _ member, (forall_mem_cons.mp waits).2⟩
        · cases before with
          | nil =>
            obtain ⟨rfl, rfl⟩ := List.cons.inj split
            exact .inl ⟨mem_append_right _ member, (forall_mem_cons.mp waits).2⟩
          | cons first before =>
            obtain ⟨rfl, tail⟩ := List.cons.inj split
            exact .inr ⟨before, other, after, tail, member, waits⟩

/-! ### Turns that leave nothing -/

theorem turn_le (ordered : Ordered all) {before after : List Segment} (split : all = before ++ segment :: after) :
    (∀ other ∈ before, other.turn ≤ segment.turn) ∧ ∀ other ∈ segment :: after, segment.turn ≤ other.turn := by
  have turns := ordered.turns
  rw [split, pairwise_append, pairwise_cons] at turns
  refine ⟨fun other member => (turns.2.2 other member segment mem_cons_self).1, fun other member => ?_⟩
  rcases mem_cons.mp member with rfl | member
  · exact Nat.le_refl _
  · exact (turns.2.1.1 other member).1

theorem find_takes {segments : List Segment} {first : Segment}
    (found : segments.find? (Segment.takes reading) = some first) : ∃ before after,
      segments = before ++ first :: after ∧ first.takes reading = true ∧
        ∀ other ∈ before, other.takes reading = false := by
  obtain ⟨takes, before, after, split, waits⟩ := find?_eq_some_iff_append.mp found
  exact ⟨before, after, split, takes, fun other member => by simpa using waits other member⟩

theorem later_takes (ordered : Ordered all) {before after : List Segment} (split : all = before ++ segment :: after)
    {first : Segment} (found : (segment :: after).find? (Segment.takes reading) = some first)
    (apart : first.turn ≠ segment.turn) :
    (∀ other ∈ segment :: after, other.turn = segment.turn → other.takes reading = false) ∧
      first ∈ after ∧ first.speaks = true := by
  obtain ⟨front, back, whole, takes, waits⟩ := find_takes found
  have member : first ∈ segment :: after := by
    rw [whole]
    exact mem_append_right _ mem_cons_self
  have up := (turn_le ordered split).2 first member
  refine ⟨fun other inside same => ?_, ?_, takes_speaks takes⟩
  · rw [whole] at inside
    rcases mem_append.mp inside with early | late
    · exact waits other early
    · have deeper : all = (before ++ front) ++ first :: back := by rw [split, whole, append_assoc]
      have := (turn_le ordered deeper).2 other late
      omega
  · rcases mem_cons.mp member with rfl | inside
    · exact absurd rfl apart
    · exact inside

/-- **Anthropic: reasoning is taken in its own turn where no turn leaves some to a later message.** -/
theorem anthropicStays_iff (ordered : Ordered all) (sends : reading.ownReasoning = false) :
    (∀ before segment after, all = before ++ segment :: after → segment.thoughts ≠ [] →
      FirstTakes reading (segment :: after) segment.turn) ↔ AnthropicStays reading all := by
  have same : ∀ segment : Segment, segment.takes reading = segment.speaks := fun segment => by
    rw [Segment.takes, sends, Bool.false_and, Bool.not_false, Bool.and_true]
  constructor
  · rintro first before segment after split ⟨some, left⟩ later member apart
    cases found : (segment :: after).find? (Segment.takes reading) with
    | none =>
      have none := find?_eq_none.mp found later (mem_cons_of_mem _ member)
      rw [same] at none
      exact Bool.not_eq_true _ ▸ none
    | some taker =>
      have turn := first before segment after split some taker found
      have none := left taker (mem_of_find?_eq_some found) turn
      rw [find?_some found] at none
      cases none
  · intro stays before segment after split some taker found
    by_contra apart
    obtain ⟨left, member, speaks⟩ := later_takes ordered split found apart
    have silent := stays before segment after split ⟨some, left⟩ taker member apart
    rw [silent] at speaks
    cases speaks

/-- The segment that leftover reasoning is attached to: the last that speaks, or, where none does, the last. -/
def Home (segments : List Segment) (home : Segment) : Prop :=
  ∃ before after, segments = before ++ home :: after ∧
    ((home.speaks = true ∧ ∀ other ∈ after, other.speaks = false) ∨
      ((∀ other ∈ segments, other.speaks = false) ∧ after = []))

/-- **Chat: the same, and what is left at the end goes to a message of its turn.** -/
theorem chatStays_iff (ordered : Ordered all) {home : Segment} (attached : Home all home) :
    ((∀ before segment after, all = before ++ segment :: after → segment.thoughts ≠ [] →
        FirstTakes reading (segment :: after) segment.turn) ∧
      ∀ before segment after, all = before ++ segment :: after → segment.thoughts ≠ [] →
        (∀ other ∈ segment :: after, other.takes reading = false) → segment.turn = home.turn) ↔
    ChatStays reading all := by
  obtain ⟨front, back, whole, last⟩ := attached
  have place := turn_le ordered whole
  constructor
  · rintro ⟨first, rest⟩ before segment after split ⟨some, left⟩
    have none : ∀ other ∈ segment :: after, other.takes reading = false := by
      cases found : (segment :: after).find? (Segment.takes reading) with
      | none => exact fun other member => Bool.not_eq_true _ ▸ find?_eq_none.mp found other member
      | some taker =>
        have turn := first before segment after split some taker found
        have none := left taker (mem_of_find?_eq_some found) turn
        rw [find?_some found] at none
        cases none
    have same := rest before segment after split some none
    have up := (turn_le ordered split).2
    rcases last with ⟨speaks, quiet⟩ | ⟨quiet, rfl⟩
    · refine ⟨fun later member apart => ?_, .inl ⟨home, ?_, same.symm, speaks⟩⟩
      · have listed : later ∈ front ++ home :: back := by
          rw [← whole, split]
          exact mem_append_right _ (mem_cons_of_mem _ member)
        rcases mem_append.mp listed with early | late
        · have := place.1 later early
          have := up later (mem_cons_of_mem _ member)
          omega
        · rcases mem_cons.mp late with rfl | late
          · exact absurd same.symm apart
          · exact quiet later late
      · rw [whole]
        exact mem_append_right _ mem_cons_self
    · refine ⟨fun later member _ => quiet later ?_, .inr ⟨quiet, fun later member => ?_⟩⟩
      · rw [split]
        exact mem_append_right _ (mem_cons_of_mem _ member)
      · have low := up later (mem_cons_of_mem _ member)
        have listed : later ∈ front ++ [home] := by
          rw [← whole, split]
          exact mem_append_right _ (mem_cons_of_mem _ member)
        rcases mem_append.mp listed with early | late
        · have := place.1 later early
          omega
        · rw [mem_singleton.mp late]
          exact same.symm
  · intro stays
    refine ⟨fun before segment after split some taker found => ?_, fun before segment after split some none => ?_⟩
    · by_contra apart
      obtain ⟨left, member, speaks⟩ := later_takes ordered split found apart
      have silent := (stays before segment after split ⟨some, left⟩).1 taker member apart
      rw [silent] at speaks
      cases speaks
    · obtain ⟨silent, turn⟩ := stays before segment after split ⟨some, fun other member _ => none other member⟩
      have listed : home ∈ before ++ segment :: after := by
        rw [← split, whole]
        exact mem_append_right _ mem_cons_self
      rcases last with ⟨speaks, quiet⟩ | ⟨quiet, rfl⟩
      · rcases turn with ⟨other, known, same, spoke⟩ | ⟨never, -⟩
        · have low : segment.turn ≤ home.turn := by
            rw [whole] at known
            rcases mem_append.mp known with early | late
            · exact same ▸ place.1 other early
            · rcases mem_cons.mp late with rfl | late
              · exact Nat.le_of_eq same.symm
              · rw [quiet other late] at spoke
                cases spoke
          by_contra apart
          rcases mem_append.mp listed with early | late
          · have := (turn_le ordered split).1 home early
            omega
          · rcases mem_cons.mp late with rfl | late
            · exact apart rfl
            · rw [silent home late fun same => apart same.symm] at speaks
              cases speaks
        · rw [never home (split ▸ listed)] at speaks
          cases speaks
      · rcases turn with ⟨other, known, -, spoke⟩ | ⟨-, same⟩
        · rw [quiet other known] at spoke
          cases spoke
        · have end' : (segment :: after).getLast? = Option.some home := by
            have final := congrArg List.getLast? (split.symm.trans whole)
            rw [getLast?_append, getLast?_concat] at final
            cases known : (segment :: after).getLast? with
            | none => simp at known
            | some other =>
              rw [known] at final
              exact final
          have inside := mem_of_getLast? end'
          rcases mem_cons.mp inside with rfl | late
          · rfl
          · exact (same home late).symm

/-! ### Chat Completions -/

section Chat

variable {system : String} {messages : List ChatMessage} {pending : PendingReasoning}

theorem chatMarks_eq (messages : List ChatMessage) : chatMarks messages = lineMarks (messages.map ChatMessage.line) := by
  rw [chatMarks, lineMarks, flatMap_map]
  rfl

theorem attachBackwards_found {others rest : List ChatMessage} {message : ChatMessage}
    (quiet : ∀ other ∈ others, other.isAssistant = false) (found : message.isAssistant = true) :
    attachBackwards pending (others ++ message :: rest) = some (others ++ addReasoning message pending :: rest) := by
  induction others with
  | nil =>
    rw [nil_append, attachBackwards, if_pos found]
    rfl
  | cons other others ih =>
    rw [cons_append, attachBackwards, if_neg (by simp [quiet other mem_cons_self]),
      ih fun later member => quiet later (mem_cons_of_mem _ member)]
    rfl

theorem attachBackwards_none (quiet : ∀ message ∈ messages, message.isAssistant = false) :
    attachBackwards pending messages = none := by
  induction messages with
  | nil => rfl
  | cons message messages ih =>
    rw [attachBackwards, if_neg (by simp [quiet message mem_cons_self]),
      ih fun later member => quiet later (mem_cons_of_mem _ member)]
    rfl

theorem attach_found {front back : List ChatMessage} {message : ChatMessage}
    (quiet : ∀ other ∈ back, other.isAssistant = false) (found : message.isAssistant = true) :
    chatMarks (attachTrailingReasoning (front ++ message :: back) pending) =
      chatMarks front ++ (pending.marks ++ message.marks) ++ chatMarks back := by
  have reversed : (front ++ message :: back).reverse = back.reverse ++ message :: front.reverse := by simp
  rw [attachTrailingReasoning, reversed,
    attachBackwards_found (fun other member => quiet other (mem_reverse.mp member)) found]
  simp [chatMarks, addReasoning]

theorem attach_none (quiet : ∀ message ∈ messages, message.isAssistant = false) :
    chatMarks (attachTrailingReasoning messages pending) = chatMarks messages ++ pending.marks := by
  rw [attachTrailingReasoning, attachBackwards_none fun other member => quiet other (mem_reverse.mp member)]
  simp [chatMarks]

theorem placedLines_quiet {entry : Placed} (quiet : entry.1.speaks = false) :
    ∀ line ∈ placedLines entry, line.1 = false := by
  intro line member
  rw [placedLines, Segment.lines, quiet, if_neg Bool.false_ne_true, append_nil, Segment.userLines] at member
  split at member
  · cases member
  · rw [mem_singleton.mp member]

theorem placement_place (items : List Value) :
    Placement (segments bridge reading items) (place reading [] (segments bridge reading items)).1 where
  segments := place_segments [] _
  marked := segments_marked items
  drawn entry member piece inside :=
    ((place_drawn [] _).1 entry member piece inside).resolve_left not_mem_nil

theorem Placement.attach {front back : List Placed} {entry : Placed} {left : List (Nat × Mark)}
    (placement : Placement all (front ++ entry :: back))
    (drawn : ∀ piece ∈ left, ∃ other ∈ all, piece ∈ other.pieces) :
    Placement all (front ++ (entry.1, left ++ entry.2) :: back) ∧
      (Homed (front ++ (entry.1, left ++ entry.2) :: back) ↔
        Homed (front ++ entry :: back) ∧ ∀ piece ∈ left, piece.1 = entry.1.turn) := by
  refine ⟨⟨?_, placement.marked, fun other member piece inside => ?_⟩, ?_⟩
  · rw [← placement.segments, map_append, map_append]
    rfl
  · rcases mem_append.mp member with early | late
    · exact placement.drawn other (mem_append_left _ early) piece inside
    · rcases mem_cons.mp late with rfl | late
      · rcases mem_append.mp inside with new | old
        · exact drawn piece new
        · exact placement.drawn entry (mem_append_right _ mem_cons_self) piece old
      · exact placement.drawn other (mem_append_right _ (mem_cons_of_mem _ late)) piece inside
  · simp only [Homed, forall_mem_append, forall_mem_cons]
    constructor
    · rintro ⟨early, ⟨new, old⟩, late⟩
      exact ⟨⟨early, old, late⟩, new⟩
    · rintro ⟨⟨early, old, late⟩, new⟩
      exact ⟨early, ⟨new, old⟩, late⟩

theorem exists_home {all : List Segment} (some : all ≠ []) : ∃ home, Home all home := by
  by_cases speaks : ∃ other ∈ all, other.speaks = true
  · obtain ⟨before, home, after, split, here, quiet⟩ := exists_last speaks
    exact ⟨home, before, after, split, .inl ⟨here, fun other member => Bool.not_eq_true _ ▸ quiet other member⟩⟩
  · obtain ⟨before, home, rfl⟩ := (eq_nil_or_concat' all).resolve_left some
    refine ⟨home, before, [], rfl, .inr ⟨fun other member => ?_, rfl⟩⟩
    rw [← Bool.not_eq_true]
    exact fun here => speaks ⟨other, member, here⟩

/-- **What is left over is attached to its home.** -/
theorem attach_placed {base : List Line} (silent : ∀ line ∈ base, line.1 = false) (unmarked : lineMarks base = [])
    {left : List (Nat × Mark)} (placement : Placement all placed) (some : all ≠ [])
    (quiet : ∀ entry ∈ placed, entry.1.speaks = false → entry.2 = [])
    (drawn : ∀ piece ∈ left, ∃ other ∈ all, piece ∈ other.pieces) (marks : pending.marks = left.map Prod.snd)
    (lines : messages.map ChatMessage.line = base ++ placed.flatMap placedLines) :
    ∃ home after, Home all home ∧ Placement all after ∧
      chatMarks (attachTrailingReasoning messages pending) = after.flatMap placedMarks ∧
      (Homed after ↔ Homed placed ∧ ∀ piece ∈ left, piece.1 = home.turn) := by
  have flat : ∀ part : List Placed, (∀ entry ∈ part, entry ∈ placed) →
      lineMarks (part.flatMap placedLines) = part.flatMap placedMarks := fun part inside =>
    lineMarks_allPlaced fun entry member => quiet entry (inside entry member)
  by_cases speaks : ∃ entry ∈ placed, entry.1.speaks = true
  · obtain ⟨front, entry, back, rfl, here, none⟩ := exists_last speaks
    have later : ∀ other ∈ back, other.1.speaks = false := fun other member =>
      Bool.not_eq_true _ ▸ none other member
    obtain ⟨placement', homed⟩ := placement.attach drawn
    refine ⟨entry.1, _, ⟨front.map Prod.fst, back.map Prod.fst, ?_, .inl ⟨here, ?_⟩⟩, placement', ?_, homed⟩
    · rw [← placement.segments, map_append]
      rfl
    · intro other member
      obtain ⟨late, inside, rfl⟩ := mem_map.mp member
      exact later late inside
    -- the lines split at the assistant's message of the last segment that speaks
    · have whole : messages.map ChatMessage.line = (base ++ front.flatMap placedLines ++ entry.1.userLines) ++
          (true, entry.2.map Prod.snd ++ entry.1.said) ::
            (entry.1.answers.map answerLine ++ back.flatMap placedLines) := by
        rw [lines, flatMap_append, flatMap_cons, placedLines, Segment.lines, if_pos here]
        simp only [append_assoc, cons_append]
      obtain ⟨start, rest, rfl, startLines, restLines⟩ := map_eq_append_iff.mp whole
      obtain ⟨message, final, rfl, messageLine, finalLines⟩ := map_eq_cons_iff.mp restLines
      have assistant : message.isAssistant = true := congrArg Prod.fst messageLine
      have said : message.marks = entry.2.map Prod.snd ++ entry.1.said := congrArg Prod.snd messageLine
      have nobody : ∀ other ∈ final, other.isAssistant = false := by
        intro other member
        have line : other.line ∈ entry.1.answers.map answerLine ++ back.flatMap placedLines :=
          finalLines ▸ mem_map_of_mem member
        rcases mem_append.mp line with answer | late
        · obtain ⟨result, -, equal⟩ := mem_map.mp answer
          exact (congrArg Prod.fst equal).symm
        · obtain ⟨placed, inside, listed⟩ := mem_flatMap.mp late
          exact placedLines_quiet (later placed inside) _ listed
      rw [attach_found nobody assistant, chatMarks_eq, chatMarks_eq, startLines, finalLines, said, marks,
        lineMarks_append, lineMarks_append, lineMarks_append, unmarked, lineMarks_userLines, lineMarks_answers,
        flat front fun entry member => mem_append_left _ member,
        flat back fun entry member => mem_append_right _ (mem_cons_of_mem _ member),
        flatMap_append, flatMap_cons, placedMarks]
      simp only [append_assoc, map_append, nil_append]
  · have never : ∀ entry ∈ placed, entry.1.speaks = false := fun entry member => by
      rw [← Bool.not_eq_true]
      exact fun here => speaks ⟨entry, member, here⟩
    have nonempty : placed ≠ [] := by
      rintro rfl
      exact some placement.segments.symm
    obtain ⟨front, entry, rfl⟩ := (eq_nil_or_concat' placed).resolve_left nonempty
    have last : entry ∈ front ++ [entry] := mem_append_right _ mem_cons_self
    obtain ⟨placement', homed⟩ := placement.attach drawn
    refine ⟨entry.1, _, ⟨front.map Prod.fst, [], ?_, .inr ⟨fun other member => ?_, rfl⟩⟩, placement', ?_, homed⟩
    · rw [← placement.segments, map_append]
      rfl
    · obtain ⟨found, inside, rfl⟩ := placement.placed_of member
      exact never found inside
    · have nobody : ∀ message ∈ messages, message.isAssistant = false := by
        intro message member
        have line : message.line ∈ base ++ (front ++ [entry]).flatMap placedLines := lines ▸ mem_map_of_mem member
        rcases mem_append.mp line with early | late
        · exact silent _ early
        · obtain ⟨placed, inside, listed⟩ := mem_flatMap.mp late
          exact placedLines_quiet (never placed inside) _ listed
      obtain ⟨said, answers⟩ := quiet_nil (never entry last)
      rw [attach_none nobody, chatMarks_eq, lines, lineMarks_append, unmarked, flat _ fun _ member => member, marks,
        flatMap_append, flatMap_append, flatMap_singleton, flatMap_singleton, placedMarks,
        placedMarks, said, answers, quiet entry last (never entry last)]
      simp

theorem gathers_start : Gathers reading {} {} := ⟨rfl, rfl, rfl, fun _ => rfl⟩

theorem run_start {μ π : Type} {format : Format μ π} {Shows : List μ → List Line → Prop} {waiting : π → List Mark}
    (follows : format.Follows reading Shows waiting) {start : List μ} {lines : List Line} {empty : π}
    {between last : Translation μ π} (shown : Shows start lines)
    (ran : items.zipIdx.foldlM (format.step bridge) ⟨start, {}, empty⟩ = .ok between)
    (flushed : format.flushed between = .ok last) (waits : waiting empty = []) :
    Shows last.messages (lines ++ (place reading [] (segments bridge reading items)).1.flatMap placedLines) ∧
      waiting last.pending = (place reading [] (segments bridge reading items)).2.map Prod.snd := by
  have before : Shows start (lines ++ ({} : Segment).userLines) := by
    rw [show ({} : Segment).userLines = [] from rfl, append_nil]
    exact shown
  exact follows.run before gathers_start waits ran flushed

theorem segments_ne_nil (items : List Value) : segments bridge reading items ≠ [] := by
  obtain ⟨first, member, -⟩ := @segmentsFrom_head bridge reading {} items.zipIdx
  exact ne_nil_of_mem member

theorem left_iff {home : Segment} :
    (∀ piece ∈ (place reading [] all).2, piece.1 = home.turn) ↔
      ∀ before segment after, all = before ++ segment :: after → segment.thoughts ≠ [] →
        (∀ other ∈ segment :: after, other.takes reading = false) → segment.turn = home.turn := by
  constructor
  · intro left before segment after split some none
    obtain ⟨mark, member⟩ := exists_mem_of_ne_nil _ some
    exact left (segment.turn, mark) ((mem_left [] all).mpr
      (.inr ⟨before, segment, after, split, mem_map_of_mem member, none⟩))
  · intro holds piece member
    rcases (mem_left [] all).mp member with ⟨none, -⟩ | ⟨before, segment, after, split, drawn, none⟩
    · cases none
    · obtain ⟨mark, inside, -⟩ := mem_map.mp drawn
      rw [pieces_turn drawn]
      exact holds before segment after split (ne_nil_of_mem inside) none

/-- **Chat keeps a history where rounds are apart and no turn leaves reasoning to another.** -/
theorem chat_kept_iff {system : String} {messages : List ChatMessage} (validated : validateToolHistory items = .ok ())
    (translated : chatMessages bridge owner system items = .ok messages) :
    Kept bridge (chatReading bridge owner) items (chatMarks messages) ↔
      RoundsApart (segments bridge (chatReading bridge owner) items) ∧
        ChatStays (chatReading bridge owner) (segments bridge (chatReading bridge owner) items) := by
  obtain ⟨last, ran, equal⟩ := except_bind_eq_ok.mp translated
  obtain ⟨between, ran, flushed⟩ := except_bind_eq_ok.mp ran
  have base : ∀ line ∈ (systemMessages system).map ChatMessage.line, line.1 = false ∧ line.2 = [] := by
    rw [systemMessages]
    split
    · simp
    · simp [ChatMessage.line, ChatMessage.isAssistant, str, Value.get, Value.asStr]
  have unmarked : lineMarks ((systemMessages system).map ChatMessage.line) = [] :=
    flatMap_eq_nil_iff.mpr fun line member => (base line member).2
  obtain ⟨shown, waits⟩ := run_start (chat_follows bridge owner) rfl ran flushed rfl
  have ordered := @segments_ordered bridge (chatReading bridge owner) items
  have placement := @placement_place bridge (chatReading bridge owner) items
  have quiet := @place_quiet (chatReading bridge owner) [] (segments bridge (chatReading bridge owner) items)
  have homed := @homed_place (chatReading bridge owner) [] (segments bridge (chatReading bridge owner) items)
  have suffices' : ∃ home after, Home (segments bridge (chatReading bridge owner) items) home ∧
      Placement (segments bridge (chatReading bridge owner) items) after ∧
      chatMarks messages = after.flatMap placedMarks ∧
      (Homed after ↔ Homed (place (chatReading bridge owner) [] (segments bridge (chatReading bridge owner) items)).1 ∧
        ∀ piece ∈ (place (chatReading bridge owner) [] (segments bridge (chatReading bridge owner) items)).2,
          piece.1 = home.turn) := by
    cases known : last.pending with
    | none =>
      rw [known] at equal waits
      obtain rfl := Except.ok.inj equal
      have nothing := map_eq_nil_iff.mp waits.symm
      obtain ⟨home, found⟩ := exists_home (@segments_ne_nil bridge (chatReading bridge owner) items)
      refine ⟨home, _, found, placement, ?_, ⟨fun holds => ⟨holds, fun piece member => ?_⟩, And.left⟩⟩
      · rw [chatMarks_eq, shown, lineMarks_append, unmarked, nil_append]
        exact lineMarks_allPlaced quiet
      · change piece ∈ (place (chatReading bridge owner) [] (segments bridge (chatReading bridge owner) items)).2
          at member
        rw [show (place (chatReading bridge owner) [] (segments bridge (chatReading bridge owner) items)).2 = [] from
          nothing] at member
        cases member
    | some pending =>
      rw [known] at equal waits
      obtain rfl := Except.ok.inj equal
      exact attach_placed (fun line member => (base line member).1) unmarked placement (segments_ne_nil items) quiet
        (fun piece member => ((place_drawn [] _).2 piece member).resolve_left not_mem_nil) waits shown
  obtain ⟨home, after, found, placed, marks, same⟩ := suffices'
  rw [marks, placed.kept_iff validated, same, homed, left_iff, ← chatStays_iff ordered found]
  simp

end Chat

end Byok.Codex
