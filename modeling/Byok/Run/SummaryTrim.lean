/-
**The history that a summary is made of.** `prune_replayed_tool_results` and `trim_to_context` of
`server/src/run/compaction.rs`.

* `pruneReplayedToolResults` — older tool results are cut to their ends.
* `scanTurns`, `trimToContext` — then older turns are left out.
* `Pruned`, `Trimmed` — what is cut, and what is left.
* `trimToContext_iff` — the history is trimmed as it should be unless the cut of an older result does not end.
-/

import Byok.Model.TokenCount
import Byok.Run.SummaryReplay

namespace Byok.Summary

open Library List

/-! ### Older results -/

def summaryRecentToolResults : Nat := 2

def summaryToolResultLimit : Nat := 8 * 1024

/-- The message with another content of its tool result. -/
def withContent (message : ProjectedMessage) (result : ToolResultContent) (content : String) : ProjectedMessage :=
  { message with content := .toolResult { result with content } }

/-- The loop of `prune_replayed_tool_results`: the newest message comes first, and `seen` results are newer. Each cut has
as many rounds. -/
def pruneFrom (rounds : Nat) : Nat → List ProjectedMessage → Option (List ProjectedMessage)
  | _, [] => some []
  | seen, message :: older =>
    match message.content with
    | .toolResult result =>
      if seen < summaryRecentToolResults then (pruneFrom rounds (seen + 1) older).map (message :: ·)
      else if summaryToolResultLimit < strLength result.content then
        (truncateMiddle rounds result.content summaryToolResultLimit result.name).bind fun content =>
          (pruneFrom rounds (seen + 1) older).map (withContent message result content :: ·)
      else (pruneFrom rounds (seen + 1) older).map (message :: ·)
    | _ => (pruneFrom rounds seen older).map (message :: ·)

def pruneReplayedToolResults (rounds : Nat) (history : List ProjectedMessage) : Option (List ProjectedMessage) :=
  (pruneFrom rounds 0 history.reverse).map List.reverse

/-! ### Whole turns -/

def isTurnBoundary (message : ProjectedMessage) : Bool :=
  message.role = .user && match message.content with
    | .parts _ => true
    | _ => false

section Trim

variable (toJson : Value → String)

/-- The backward loop of `trim_to_context` over the indices below a given one; its state is `kept` and `newest_turn`. -/
def scanTurns (budget : Nat) (history : List ProjectedMessage) : Nat → Nat × Option Nat → Nat × Option Nat
  | 0, state => state
  | index + 1, (kept, newestTurn) =>
    if (history[index]?.any isTurnBoundary) then
      let newestTurn := newestTurn.or (some index)
      if budget < estimateProjectedMessagesTokens toJson (history.drop index) then (kept, newestTurn)
      else scanTurns budget history index (history.length - index, newestTurn)
    else scanTurns budget history index (kept, newestTurn)

/-- What `trim_to_context` leaves of a history that is too long when it is pruned. -/
def newestTurns (budget : Nat) (history : List ProjectedMessage) : List ProjectedMessage :=
  let scanned := scanTurns toJson budget history history.length (0, none)
  if scanned.1 = 0 then history.drop (scanned.2.getD 0) else history.drop (history.length - scanned.1)

def trimToContext (rounds : Nat) (history : List ProjectedMessage) : Option Nat → Option (List ProjectedMessage)
  | none => some history
  | some budget =>
    if estimateProjectedMessagesTokens toJson history ≤ budget then some history
    else (pruneReplayedToolResults rounds history).map fun history =>
      if estimateProjectedMessagesTokens toJson history ≤ budget then history else newestTurns toJson budget history

end Trim

/-! ### What it is for -/

/-- A text as its two ends around a notice, shorter than it was. -/
structure Shortened (content tool text : String) : Prop where
  ends : ∃ head middle tail, content = head ++ middle ++ tail ∧
    text = head ++ prunedNotice tool (strLength head + strLength tail) (strLength content) ++ tail
  shorter : strLength text < strLength content

/-- The number of results, with a message. -/
def seenWith (seen : Nat) (message : ProjectedMessage) : Nat :=
  match message.content with
  | .toolResult _ => seen + 1
  | _ => seen

/-- The result of a message that is to be shortened, where `seen` results are newer: it is not one of the two newest,
and it is over the limit. -/
def longResult? (seen : Nat) (message : ProjectedMessage) : Option ToolResultContent :=
  match message.content with
  | .toolResult result =>
    if summaryRecentToolResults ≤ seen ∧ summaryToolResultLimit < strLength result.content then some result else none
  | _ => none

/-- A history, the newest message first, with its older results shortened and nothing else changed. -/
inductive Pruned : Nat → List ProjectedMessage → List ProjectedMessage → Prop
  | nil (seen : Nat) : Pruned seen [] []
  | same {seen : Nat} {message : ProjectedMessage} {older older' : List ProjectedMessage}
      (short : longResult? seen message = none) (rest : Pruned (seenWith seen message) older older') :
      Pruned seen (message :: older) (message :: older')
  | cut {seen : Nat} {message : ProjectedMessage} {older older' : List ProjectedMessage} {result : ToolResultContent}
      {text : String} (long : longResult? seen message = some result) (shortened : Shortened result.content result.name text)
      (rest : Pruned (seenWith seen message) older older') :
      Pruned seen (message :: older) (withContent message result text :: older')

/-- The results that are to be shortened. -/
def longResults : Nat → List ProjectedMessage → List ToolResultContent
  | _, [] => []
  | seen, message :: older => (longResult? seen message).toList ++ longResults (seenWith seen message) older

/-- A history that starts with a turn of the user. -/
def StartsTurn (history : List ProjectedMessage) : Prop := history.head?.any isTurnBoundary = true

/-- A history of one turn. -/
def OneTurn (history : List ProjectedMessage) : Prop :=
  StartsTurn history ∧ ∀ message ∈ history.tail, isTurnBoundary message = false

/-- The newest whole turns of a history within a budget. -/
structure Newest (toJson : Value → String) (budget : Nat) (history result : List ProjectedMessage) : Prop where
  part : result = history ∨ result <:+ history ∧ StartsTurn result
  fits : estimateProjectedMessagesTokens toJson result ≤ budget ∨ OneTurn result ∨
    ∀ message ∈ history, isTurnBoundary message = false
  maximal : ∀ older, older <:+ history → result <:+ older → older ≠ result → StartsTurn older →
    budget < estimateProjectedMessagesTokens toJson older

/-- What `trim_to_context` is for. -/
structure Trimmed (toJson : Value → String) (history : List ProjectedMessage) (budget : Option Nat)
    (result : List ProjectedMessage) : Prop where
  shape : (result = history ∧ ∀ limit ∈ budget, estimateProjectedMessagesTokens toJson history ≤ limit) ∨
    ∃ limit pruned, budget = some limit ∧ Pruned 0 history.reverse pruned.reverse ∧ Newest toJson limit pruned result
  some : result = [] → history = []

/-- A result that can be shortened: its cut ends, and its notice is not longer than it. -/
def Cuttable (result : ToolResultContent) : Prop :=
  ¬ Alternates result.content summaryToolResultLimit result.name ∧
    strLength (prunedNotice result.name 0 (strLength result.content)) < strLength result.content

/-! ### Pruning -/

section Prune

variable {content tool text : String} {rounds seen : Nat} {messages pruned : List ProjectedMessage}

theorem Shortened.notice (shortened : Shortened content tool text) :
    strLength (prunedNotice tool 0 (strLength content)) < strLength content := by
  obtain ⟨head, middle, tail, -, rfl⟩ := shortened.ends
  have shorter := shortened.shorter
  have frame := strLength_notice tool (strLength head + strLength tail) (strLength content)
  have some := Settle.digits_pos (strLength head + strLength tail)
  simp only [strLength_append] at shorter
  omega

theorem truncateMiddle_ends_iff (long : summaryToolResultLimit < strLength content) :
    (∃ rounds text, truncateMiddle rounds content summaryToolResultLimit tool = some text) ↔
      ¬ Alternates content summaryToolResultLimit tool := by
  rw [← truncateMiddleFrom_ends_iff (by decide) long]
  simp only [truncateMiddle, if_neg (Nat.not_le.mpr long)]

theorem shortened_of_ended (long : summaryToolResultLimit < strLength content)
    (notice : strLength (prunedNotice tool 0 (strLength content)) < strLength content)
    (ended : truncateMiddle rounds content summaryToolResultLimit tool = some text) : Shortened content tool text := by
  rw [truncateMiddle, if_neg (Nat.not_le.mpr long)] at ended
  obtain ⟨ends, bounded⟩ := ends_of_ended long ended
  exact ⟨ends, by omega⟩

theorem pruneFrom_same {message : ProjectedMessage} (short : longResult? seen message = none) (rounds : Nat)
    (older : List ProjectedMessage) :
    pruneFrom rounds seen (message :: older) = (pruneFrom rounds (seenWith seen message) older).map (message :: ·) := by
  cases content : message.content with
  | parts parts => simp only [pruneFrom, seenWith, content]
  | assistant text thinking replayState calls => simp only [pruneFrom, seenWith, content]
  | toolResult result =>
    simp only [pruneFrom, seenWith, content]
    by_cases recent : seen < summaryRecentToolResults
    · rw [if_pos recent]
    · have fits : ¬ summaryToolResultLimit < strLength result.content := by
        intro long
        simp [longResult?, content, Nat.not_lt.mp recent, long] at short
      rw [if_neg recent, if_neg fits]

theorem pruneFrom_cut {message : ProjectedMessage} {result : ToolResultContent}
    (long : longResult? seen message = some result) (rounds : Nat) (older : List ProjectedMessage) :
    pruneFrom rounds seen (message :: older) =
      (truncateMiddle rounds result.content summaryToolResultLimit result.name).bind fun content =>
        (pruneFrom rounds (seenWith seen message) older).map (withContent message result content :: ·) := by
  cases content : message.content with
  | parts parts => simp [longResult?, content] at long
  | assistant text thinking replayState calls => simp [longResult?, content] at long
  | toolResult own =>
    simp only [longResult?, content] at long
    split at long
    · rename_i both
      obtain rfl := Option.some.inj long
      simp only [pruneFrom, seenWith, content]
      rw [if_neg (Nat.not_lt.mpr both.1), if_pos both.2]
    · cases long

theorem longResult_long {message : ProjectedMessage} {result : ToolResultContent}
    (long : longResult? seen message = some result) : summaryToolResultLimit < strLength result.content := by
  unfold longResult? at long
  split at long
  · split at long
    · rename_i both
      obtain rfl := Option.some.inj long
      exact both.2
    · cases long
  · cases long

theorem pruneFrom_more (ended : pruneFrom rounds seen messages = some pruned) (more : Nat) :
    pruneFrom (rounds + more) seen messages = some pruned := by
  induction messages generalizing seen pruned with
  | nil => exact ended
  | cons message older ih =>
    cases long : longResult? seen message with
    | none =>
      rw [pruneFrom_same long, Option.map_eq_some_iff] at ended
      obtain ⟨rest, ended, rfl⟩ := ended
      rw [pruneFrom_same long, ih ended]
      rfl
    | some result =>
      rw [pruneFrom_cut long, Option.bind_eq_some_iff] at ended
      obtain ⟨content, cut, mapped⟩ := ended
      obtain ⟨rest, others, rfl⟩ := Option.map_eq_some_iff.mp mapped
      rw [pruneFrom_cut long, truncateMiddle_more cut more, Option.bind_some, ih others]
      rfl

/-- **Where the pruning ends**: where the cut of each older result does. -/
theorem pruneFrom_ends_iff : (∃ rounds pruned, pruneFrom rounds seen messages = some pruned) ↔
    ∀ result ∈ longResults seen messages, ¬ Alternates result.content summaryToolResultLimit result.name := by
  induction messages generalizing seen with
  | nil =>
    constructor
    · exact fun _ _ listed => nomatch listed
    · exact fun _ => ⟨0, [], rfl⟩
  | cons message older ih =>
    have rest := @ih (seenWith seen message)
    cases long : longResult? seen message with
    | none =>
      simp only [longResults, long, Option.toList_none, nil_append, ← rest, pruneFrom_same long,
        Option.map_eq_some_iff]
      constructor
      · rintro ⟨rounds, _, pruned, ended, -⟩
        exact ⟨rounds, pruned, ended⟩
      · rintro ⟨rounds, pruned, ended⟩
        exact ⟨rounds, _, pruned, ended, rfl⟩
    | some result =>
      simp only [longResults, long, Option.toList_some, singleton_append, forall_mem_cons, ← rest,
        ← truncateMiddle_ends_iff (longResult_long long), pruneFrom_cut long, Option.bind_eq_some_iff,
        Option.map_eq_some_iff]
      constructor
      · rintro ⟨rounds, _, content, cut, pruned, ended, -⟩
        exact ⟨⟨rounds, content, cut⟩, rounds, pruned, ended⟩
      · rintro ⟨⟨rounds, content, cut⟩, others, pruned, ended⟩
        have ended' := pruneFrom_more ended rounds
        rw [Nat.add_comm] at ended'
        exact ⟨rounds + others, _, content, truncateMiddle_more cut others, pruned, ended', rfl⟩

theorem pruned_of_ended (ended : pruneFrom rounds seen messages = some pruned)
    (notices : ∀ result ∈ longResults seen messages,
      strLength (prunedNotice result.name 0 (strLength result.content)) < strLength result.content) :
    Pruned seen messages pruned := by
  induction messages generalizing seen pruned with
  | nil =>
    obtain rfl := Option.some.inj ended
    exact .nil seen
  | cons message older ih =>
    cases long : longResult? seen message with
    | none =>
      rw [pruneFrom_same long, Option.map_eq_some_iff] at ended
      obtain ⟨rest, ended, rfl⟩ := ended
      refine .same long (ih ended fun result listed => notices result ?_)
      rw [longResults, long]
      exact listed
    | some result =>
      rw [pruneFrom_cut long, Option.bind_eq_some_iff] at ended
      obtain ⟨content, cut, mapped⟩ := ended
      obtain ⟨rest, others, rfl⟩ := Option.map_eq_some_iff.mp mapped
      have own := notices result (by rw [longResults, long]; exact mem_cons_self)
      refine .cut long (shortened_of_ended (longResult_long long) own cut) (ih others fun other listed => notices other ?_)
      rw [longResults, long]
      exact mem_cons_of_mem _ listed

theorem Pruned.length (done : Pruned seen messages pruned) : pruned.length = messages.length := by
  induction done with
  | nil seen => rfl
  | same short rest ih => simp [ih]
  | cut long shortened rest ih => simp [ih]

theorem Pruned.notices (done : Pruned seen messages pruned) : ∀ result ∈ longResults seen messages,
    strLength (prunedNotice result.name 0 (strLength result.content)) < strLength result.content := by
  induction done with
  | nil seen => exact fun _ listed => nomatch listed
  | same short rest ih =>
    rw [longResults, short]
    exact ih
  | cut long shortened rest ih =>
    rw [longResults, long]
    intro result listed
    rcases mem_cons.mp listed with rfl | later
    · exact shortened.notice
    · exact ih result later

end Prune

/-! ### Whole turns within a budget -/

section Turns

variable {toJson : Value → String} {budget : Nat} {history : List ProjectedMessage}

/-- A turn of the user starts there. -/
def TurnAt (history : List ProjectedMessage) (index : Nat) : Prop := history[index]?.any isTurnBoundary = true

/-- What the loop ends with: no turn, a newest turn that is over the budget, or the oldest turn from which on all of the
history is within it. -/
inductive Scanned (toJson : Value → String) (budget : Nat) (history : List ProjectedMessage) : Nat × Option Nat → Prop
  | none (free : ∀ index, ¬ TurnAt history index) : Scanned toJson budget history (0, none)
  | beyond {newest : Nat} (here : TurnAt history newest) (last : ∀ index, newest < index → ¬ TurnAt history index)
      (beyond : budget < estimateProjectedMessagesTokens toJson (history.drop newest)) :
      Scanned toJson budget history (0, some newest)
  | fits {start : Nat} {newest : Option Nat} (here : TurnAt history start)
      (fits : estimateProjectedMessagesTokens toJson (history.drop start) ≤ budget)
      (older : ∀ index, index < start → TurnAt history index →
        budget < estimateProjectedMessagesTokens toJson (history.drop index)) :
      Scanned toJson budget history (history.length - start, newest)

/-- What holds before an index is looked at: there was no turn, or the oldest one so far is within the budget. -/
inductive Scanning (toJson : Value → String) (budget : Nat) (history : List ProjectedMessage) (index : Nat) :
    Nat × Option Nat → Prop
  | none (free : ∀ later, index ≤ later → ¬ TurnAt history later) : Scanning toJson budget history index (0, none)
  | some {start newest : Nat} (here : TurnAt history start)
      (fits : estimateProjectedMessagesTokens toJson (history.drop start) ≤ budget)
      (between : ∀ later, index ≤ later → later < start → ¬ TurnAt history later) :
      Scanning toJson budget history index (history.length - start, some newest)

theorem estimate_drop_mono (toJson : Value → String) (history : List ProjectedMessage) {first second : Nat}
    (le : first ≤ second) : estimateProjectedMessagesTokens toJson (history.drop second) ≤
      estimateProjectedMessagesTokens toJson (history.drop first) :=
  estimateProjectedMessagesTokens_sublist toJson (drop_suffix_drop_left history le).sublist

theorem scanned_of_scanning {index : Nat} {state : Nat × Option Nat}
    (scanning : Scanning toJson budget history index state) :
    Scanned toJson budget history (scanTurns toJson budget history index state) := by
  induction index generalizing state with
  | zero =>
    cases scanning with
    | none free => exact .none fun index => free index (Nat.zero_le _)
    | some here fits between =>
      exact .fits here fits fun index before turn => absurd turn (between index (Nat.zero_le _) before)
  | succ index ih =>
    obtain ⟨kept, newest⟩ := state
    rw [scanTurns]
    by_cases turn : history[index]?.any isTurnBoundary = true
    · rw [if_pos turn]
      by_cases beyond : budget < estimateProjectedMessagesTokens toJson (history.drop index)
      · simp only [if_pos beyond]
        cases scanning with
        | none free => exact .beyond turn free beyond
        | @some start newest here fits between =>
          refine .fits here fits fun older before older_turn => ?_
          have at_most : older ≤ index := by
            by_contra later
            exact between older (by omega) before older_turn
          exact Nat.lt_of_lt_of_le beyond (estimate_drop_mono toJson history at_most)
      · simp only [if_neg beyond]
        have none_between : ∀ later, index ≤ later → later < index → ¬ TurnAt history later :=
          fun later from_here before => absurd before (Nat.not_lt.mpr from_here)
        cases scanning with
        | none free => exact ih (.some turn (Nat.not_lt.mp beyond) none_between)
        | some here fits between => exact ih (.some turn (Nat.not_lt.mp beyond) none_between)
    · rw [if_neg turn]
      have all_later (bound : Nat → Prop) (free : ∀ later, index + 1 ≤ later → bound later → ¬ TurnAt history later) :
          ∀ later, index ≤ later → bound later → ¬ TurnAt history later := by
        intro later from_here inside
        rcases Nat.eq_or_lt_of_le from_here with rfl | after
        · exact turn
        · exact free later after inside
      cases scanning with
      | none free =>
        exact ih (.none fun later from_here =>
          all_later (fun _ => True) (fun later after _ => free later after) later from_here trivial)
      | some here fits between => exact ih (.some here fits (all_later (· < _) between))

theorem scanTurns_scanned (toJson : Value → String) (budget : Nat) (history : List ProjectedMessage) :
    Scanned toJson budget history (scanTurns toJson budget history history.length (0, none)) := by
  refine scanned_of_scanning (.none fun later outside turn => ?_)
  rw [TurnAt, getElem?_eq_none outside] at turn
  cases turn

theorem turnAt_lt {index : Nat} (turn : TurnAt history index) : index < history.length := by
  by_contra outside
  rw [TurnAt, getElem?_eq_none (Nat.not_lt.mp outside)] at turn
  cases turn

theorem startsTurn_drop {index : Nat} : StartsTurn (history.drop index) ↔ TurnAt history index := by
  rw [StartsTurn, TurnAt, head?_drop]

/-- **The newest whole turns within a budget**, for a history that is over it. -/
theorem newestTurns_newest (beyond : budget < estimateProjectedMessagesTokens toJson history) :
    Newest toJson budget history (newestTurns toJson budget history) ∧ newestTurns toJson budget history ≠ [] := by
  have some : history ≠ [] := by
    rintro rfl
    exact absurd beyond (Nat.not_lt_zero _)
  have scanned := scanTurns_scanned toJson budget history
  unfold newestTurns
  generalize scanTurns toJson budget history history.length (0, none) = state at scanned
  cases scanned with
  | none free =>
    refine ⟨⟨.inl rfl, .inr (.inr fun message listed => ?_), fun older part whole differs _ => ?_⟩, some⟩
    · obtain ⟨index, found⟩ := mem_iff_getElem?.mp listed
      have turnless := free index
      rw [TurnAt, found] at turnless
      simpa using turnless
    · exact absurd (part.eq_of_length_le whole.length_le) differs
  | @beyond newest here last beyond =>
    have inside := turnAt_lt here
    refine ⟨⟨.inr ⟨drop_suffix _ _, startsTurn_drop.mpr here⟩, .inr (.inl ⟨startsTurn_drop.mpr here, ?_⟩), ?_⟩, ?_⟩
    · intro message listed
      obtain ⟨index, found⟩ := mem_iff_getElem?.mp listed
      have turnless := last (newest + 1 + index) (by omega)
      simp only [if_true, Option.getD_some, tail_drop, getElem?_drop] at found
      rw [TurnAt, found] at turnless
      simpa using turnless
    · intro older _ longer _ _
      exact Nat.lt_of_lt_of_le beyond (estimateProjectedMessagesTokens_sublist toJson longer.sublist)
    · exact drop_eq_nil_iff.not.mpr (by simpa using inside)
  | @fits start newest here fits older =>
    have inside := turnAt_lt here
    have kept : history.length - start ≠ 0 := by omega
    have same : history.length - (history.length - start) = start := by omega
    simp only [kept, if_false, same]
    refine ⟨⟨.inr ⟨drop_suffix _ _, startsTurn_drop.mpr here⟩, .inl fits, ?_⟩, ?_⟩
    · intro longer part whole differs starts
      obtain ⟨front, split⟩ := part
      have dropped : longer = history.drop front.length := by rw [← split, drop_left]
      rw [dropped] at starts ⊢
      refine older front.length ?_ (startsTurn_drop.mp starts)
      by_contra late
      have lengths := whole.length_le
      rw [dropped, length_drop, length_drop] at lengths
      have begins := turnAt_lt (startsTurn_drop.mp starts)
      exact differs (by rw [dropped, show front.length = start by omega])
    · exact drop_eq_nil_iff.not.mpr (by omega)

end Turns

/-! ### The history -/

section History

variable {toJson : Value → String} {history : List ProjectedMessage} {budget : Option Nat}

/-- **The history is trimmed as it should be where it fits, or where each older result over the limit can be cut.** -/
theorem trimToContext_iff :
    (∃ rounds result, trimToContext toJson rounds history budget = some result ∧ Trimmed toJson history budget result) ↔
      (∀ limit ∈ budget, estimateProjectedMessagesTokens toJson history ≤ limit) ∨
        ∀ result ∈ longResults 0 history.reverse, Cuttable result := by
  by_cases fits : ∀ limit ∈ budget, estimateProjectedMessagesTokens toJson history ≤ limit
  · rw [iff_true_right (.inl fits)]
    refine ⟨0, history, ?_, .inl ⟨rfl, fits⟩, id⟩
    cases budget with
    | none => rfl
    | some limit => exact if_pos (fits limit rfl)
  · obtain ⟨limit, rfl⟩ : ∃ limit, budget = some limit := by
      cases budget with
      | none => exact absurd (fun _ listed => nomatch listed) fits
      | some limit => exact ⟨limit, rfl⟩
    have beyond : ¬ estimateProjectedMessagesTokens toJson history ≤ limit := by simpa using fits
    have nonempty : history ≠ [] := by
      rintro rfl
      exact beyond (Nat.zero_le _)
    rw [or_iff_right fits]
    simp only [trimToContext, beyond, if_false, Option.map_eq_some_iff]
    constructor
    · rintro ⟨rounds, result, ⟨pruned, ended, -⟩, trimmed⟩
      obtain ⟨reversed, ended, -⟩ := Option.map_eq_some_iff.mp ended
      have ends := pruneFrom_ends_iff.mp ⟨rounds, reversed, ended⟩
      rcases trimmed.shape with ⟨-, within⟩ | ⟨_, pruned', -, done, -⟩
      · exact absurd (within limit rfl) beyond
      · exact fun result listed => ⟨ends result listed, done.notices result listed⟩
    · intro cuttable
      obtain ⟨rounds, reversed, ended⟩ := pruneFrom_ends_iff.mpr fun result listed => (cuttable result listed).1
      have done := pruned_of_ended ended fun result listed => (cuttable result listed).2
      have pruned : pruneReplayedToolResults rounds history = some reversed.reverse := by
        rw [pruneReplayedToolResults, ended]
        rfl
      have some : reversed.reverse ≠ [] := by
        intro none
        have lengths := done.length
        rw [reverse_eq_nil_iff.mp none] at lengths
        exact nonempty (by simpa using lengths.symm)
      have newest : Newest toJson limit reversed.reverse
          (if estimateProjectedMessagesTokens toJson reversed.reverse ≤ limit then reversed.reverse
            else newestTurns toJson limit reversed.reverse) ∧
          (if estimateProjectedMessagesTokens toJson reversed.reverse ≤ limit then reversed.reverse
            else newestTurns toJson limit reversed.reverse) ≠ [] := by
        split
        · rename_i within
          refine ⟨⟨.inl rfl, .inl within, fun older part whole differs _ => ?_⟩, some⟩
          exact absurd (part.eq_of_length_le whole.length_le) differs
        · rename_i beyond
          exact newestTurns_newest (Nat.not_le.mp beyond)
      refine ⟨rounds, _, ⟨reversed.reverse, pruned, rfl⟩, .inr ⟨limit, reversed.reverse, rfl, ?_, newest.1⟩, ?_⟩
      · rwa [reverse_reverse]
      · exact fun none => absurd none newest.2

theorem alternates_thousand {content name : String} (ascii : ∀ character ∈ content.toList, character.utf8Size = 1)
    (whole : strLength content = 9000) (named : strLength name = 7125) : Alternates content summaryToolResultLimit name := by
  have frame : noticeFrame content name = 7189 := by
    have first : strLength "\n\n[old " = 7 := by decide +kernel
    have second : strLength " result pruned for the summary: showing " = 40 := by decide +kernel
    have third : strLength " of " = 4 := by decide +kernel
    have fourth : strLength " bytes]\n\n" = 9 := by decide +kernel
    have digits : Settle.digits 9000 = 4 := by decide +kernel
    have digit : Settle.digits 0 = 1 := by decide +kernel
    simp only [noticeFrame, prunedNotice, strLength_append, strLength_toString, whole, named, first, second, third,
      fourth, digits, digit]
  refine ⟨3, by decide, ?_, ?_⟩
  · rw [keptBeside, frame, keptIn_ascii ascii (by rw [whole]; decide)]
    decide
  · rw [keptBeside, frame, keptIn_ascii ascii (by rw [whole]; decide)]
    decide

/-- A turn with three calls of one tool, their results after them. -/
def replayOf (result : ToolResultContent) : List ProjectedMessage :=
  let call (index : Nat) (callId : String) : ToolCallContent := ⟨index, callId, result.name, .object []⟩
  [⟨"question", .user, .parts [.text "Look."]⟩,
    ⟨"calls", .assistant, .assistant "" "" none [call 0 "first", call 1 "second", call 2 "third"]⟩,
    ⟨"first-result", .tool, .toolResult { result with callId := "first" }⟩,
    ⟨"second-result", .tool, .toolResult { result with callId := "second", content := "Nothing." }⟩,
    ⟨"third-result", .tool, .toolResult { result with callId := "third", content := "Nothing." }⟩]

theorem endless_of {result : ToolResultContent} (long : summaryToolResultLimit < strLength result.content)
    (alternates : Alternates result.content summaryToolResultLimit result.name) (rounds : Nat) :
    trimToContext (fun _ => "") rounds (replayOf result) (some 0) = none := by
  have beyond : ¬ estimateProjectedMessagesTokens (fun _ => "") (replayOf result) ≤ 0 := by
    have question : estimateProjectedMessagesTokens (fun _ => "") [⟨"question", .user, .parts [.text "Look."]⟩] = 10 := by
      decide +kernel
    have part : estimateProjectedMessagesTokens (fun _ => "") [⟨"question", .user, .parts [.text "Look."]⟩] ≤
        estimateProjectedMessagesTokens (fun _ => "") (replayOf result) :=
      estimateProjectedMessagesTokens_sublist _ (singleton_sublist.mpr mem_cons_self)
    omega
  have results : longResults 0 (replayOf result).reverse = [{ result with callId := "first" }] := by
    simp [replayOf, longResults, longResult?, seenWith, summaryRecentToolResults, long]
  have none : pruneFrom rounds 0 (replayOf result).reverse = none := by
    cases ended : pruneFrom rounds 0 (replayOf result).reverse with
    | none => rfl
    | some pruned =>
      have ends := pruneFrom_ends_iff.mp ⟨rounds, pruned, ended⟩ { result with callId := "first" }
        (by rw [results]; exact mem_cons_self)
      exact absurd alternates ends
  simp only [trimToContext, beyond, if_false, pruneReplayedToolResults, none, Option.map_none]

theorem endless_thousand {content name : String} (ascii : ∀ character ∈ content.toList, character.utf8Size = 1)
    (whole : strLength content = 9000) (named : strLength name = 7125) (rounds : Nat) :
    trimToContext (fun _ => "") rounds
      (replayOf { callId := "", name := name, content := content, isError := false, image := none, providerParts := [] })
      (some 0) = none := by
  have long : summaryToolResultLimit < strLength content := by
    rw [whole]
    decide
  exact endless_of long (alternates_thousand ascii whole named) rounds

theorem trimToContext_endless : ¬ ∃ rounds result, trimToContext (fun _ => "") rounds
    (replayOf
      { callId := "", name := String.ofList (List.replicate 7125 'n')
        content := String.ofList (List.replicate 9000 'x'), isError := false, image := none, providerParts := [] })
    (some 0) = some result := by
  rintro ⟨rounds, result, ended⟩
  have content : 'x'.utf8Size = 1 := by decide
  have name : 'n'.utf8Size = 1 := by decide
  rw [endless_thousand (fun character listed => ?_) (strLength_replicate 'x' content 9000)
    (strLength_replicate 'n' name 7125) rounds] at ended
  · cases ended
  · rw [String.toList_ofList] at listed
    rw [eq_of_mem_replicate listed, content]

end History

end Byok.Summary
