/-
**Stop sequences and the cuts of a text.** `StopFilter` of `server/src/anthropic/messages.rs`.

The provider may cut a text into deltas anywhere. The filter searches what it has not sent.

* `firstStop` — where a stop sequence begins earliest, and the first one listed that begins there.
* `run_eq` — the filter stops at the first delta behind which some sequence is complete.
* `split_independent_iff` — what it sends does not depend on the cuts exactly when no sequence is complete before that
  one is.
-/

import Byok.Gateway.Response
import Mathlib.Data.List.Infix

namespace Byok.Gateway

open List

/-! ### Where a sequence begins -/

/-- The first sequence listed that a text begins with. -/
def stopHere (sequences : List String) (text : List Char) : Option String :=
  sequences.find? fun sequence => sequence.toList.isPrefixOf text

/-- Where a sequence begins earliest in a text at `position`, and the first one listed that begins there. -/
def firstStop (sequences : List String) (position : Nat) : List Char → Option (Nat × String)
  | [] => (stopHere sequences []).map (position, ·)
  | character :: rest =>
    match stopHere sequences (character :: rest) with
    | some sequence => some (position, sequence)
    | none => firstStop sequences (position + 1) rest

/-- A sequence that stands at a position. -/
def Occurs (sequences : List String) (text : List Char) (position : Nat) (sequence : String) : Prop :=
  sequence ∈ sequences ∧ sequence.toList <+: text.drop position

variable {sequences : List String} {text : List Char}

theorem stopHere_occurs {sequence : String} (found : stopHere sequences text = some sequence) :
    sequence ∈ sequences ∧ sequence.toList <+: text := by
  have begins : sequence.toList.isPrefixOf text = true := by simpa using find?_some found
  exact ⟨mem_of_find?_eq_some found, isPrefixOf_iff_prefix.mp begins⟩

theorem stopHere_eq_none : stopHere sequences text = none ↔ ∀ sequence ∈ sequences, ¬ sequence.toList <+: text := by
  simp only [stopHere, find?_eq_none, isPrefixOf_iff_prefix]

theorem stopHere_prefix {shorter : List Char} {first other : String} (begins : shorter <+: text)
    (long : stopHere sequences text = some first) (there : first.toList <+: shorter)
    (short : stopHere sequences shorter = some other) : other = first := by
  obtain ⟨holds, before, after, listed, none⟩ := find?_eq_some_iff_append.mp long
  have same : stopHere sequences shorter = some first := by
    refine find?_eq_some_iff_append.mpr ⟨List.isPrefixOf_iff_prefix.mpr there, before, after, listed, ?_⟩
    intro sequence earlier
    have absent := none sequence earlier
    simp only [Bool.not_eq_true', Bool.eq_false_iff, ne_eq, isPrefixOf_iff_prefix] at absent ⊢
    exact fun here => absent (here.trans begins)
  exact Option.some.inj (short.symm.trans same)

theorem firstStop_eq_some {position found : Nat} {sequence : String} :
    firstStop sequences position text = some (found, sequence) ↔ ∃ offset, found = position + offset ∧
      stopHere sequences (text.drop offset) = some sequence ∧
      (∀ earlier < offset, stopHere sequences (text.drop earlier) = none) ∧ offset ≤ text.length := by
  induction text generalizing position with
  | nil =>
    simp only [firstStop, Option.map_eq_some_iff, Prod.mk.injEq, drop_nil, length_nil, Nat.le_zero]
    constructor
    · rintro ⟨_, here, rfl, rfl⟩
      exact ⟨0, rfl, here, fun _ less => (Nat.not_lt_zero _ less).elim, rfl⟩
    · rintro ⟨offset, rfl, here, -, rfl⟩
      exact ⟨_, here, rfl, rfl⟩
  | cons character rest ih =>
    rw [firstStop]
    cases here : stopHere sequences (character :: rest) with
    | some first =>
      simp only [Option.some.injEq, Prod.mk.injEq]
      constructor
      · rintro ⟨rfl, rfl⟩
        exact ⟨0, rfl, here, fun _ less => (Nat.not_lt_zero _ less).elim, Nat.zero_le _⟩
      · rintro ⟨offset, rfl, there, none, -⟩
        cases offset with
        | zero => exact ⟨rfl, Option.some.inj (here.symm.trans there)⟩
        | succ offset =>
          have absent := none 0 (Nat.succ_pos offset)
          rw [drop_zero, here] at absent
          cases absent
    | none =>
      rw [ih]
      constructor
      · rintro ⟨offset, rfl, there, none, inside⟩
        refine ⟨offset + 1, by omega, there, fun earlier less => ?_, Nat.succ_le_succ inside⟩
        cases earlier with
        | zero => exact here
        | succ earlier => exact none earlier (Nat.lt_of_succ_lt_succ less)
      · rintro ⟨offset, rfl, there, none, inside⟩
        cases offset with
        | zero =>
          rw [drop_zero, here] at there
          cases there
        | succ offset =>
          exact ⟨offset, by omega, there, fun earlier less => none (earlier + 1) (Nat.succ_lt_succ less),
            Nat.le_of_succ_le_succ inside⟩

theorem firstStop_eq_none {position : Nat} :
    firstStop sequences position text = none ↔ ∀ offset ≤ text.length, stopHere sequences (text.drop offset) = none := by
  induction text generalizing position with
  | nil => simp [firstStop]
  | cons character rest ih =>
    rw [firstStop]
    cases here : stopHere sequences (character :: rest) with
    | some first =>
      constructor
      · intro absent
        cases absent
      · intro none
        have absent := none 0 (Nat.zero_le _)
        rw [drop_zero, here] at absent
        cases absent
    | none =>
      rw [ih]
      constructor
      · intro none offset inside
        cases offset with
        | zero => exact here
        | succ offset => exact none offset (Nat.le_of_succ_le_succ inside)
      · intro none offset inside
        exact none (offset + 1) (Nat.succ_le_succ inside)

theorem firstStop_le {position found : Nat} {sequence : String}
    (first : firstStop sequences position text = some (found, sequence)) : position ≤ found := by
  obtain ⟨offset, rfl, -⟩ := firstStop_eq_some.mp first
  exact Nat.le_add_right position offset

theorem firstStop_append {position : Nat} (front : List Char)
    (none : ∀ offset < front.length, stopHere sequences ((front ++ text).drop offset) = none) :
    firstStop sequences position (front ++ text) = firstStop sequences (position + front.length) text := by
  induction front generalizing position with
  | nil => rfl
  | cons character front ih =>
    have here := none 0 (Nat.succ_pos _)
    rw [cons_append, drop_zero] at here
    rw [cons_append, firstStop, here]
    show firstStop sequences (position + 1) (front ++ text) = _
    rw [ih fun offset less => none (offset + 1) (Nat.succ_lt_succ less), length_cons]
    congr 1
    omega

/-! ### The search of the filter -/

theorem findText_le {pattern : List Char} {position found : Nat} (there : findText pattern position text = some found) :
    position ≤ found := by
  induction text generalizing position with
  | nil =>
    rw [findText] at there
    split at there
    · exact (Option.some.inj there).le
    · cases there
  | cons character rest ih =>
    rw [findText] at there
    split at there
    · exact (Option.some.inj there).le
    · exact (Nat.le_succ position).trans (ih there)

/-- The step of the loop of `earliest_match`. -/
def earlier (position : Nat) (text : List Char) (best : Option (Nat × String)) (sequence : String) :
    Option (Nat × String) :=
  match findText sequence.toList position text, best with
  | none, best => best
  | some position, none => some (position, sequence)
  | some position, some (current, known) =>
    if position < current then some (position, sequence) else some (current, known)

theorem firstStop_concat (position : Nat) (sequence : String) :
    firstStop (sequences ++ [sequence]) position text =
      earlier position text (firstStop sequences position text) sequence := by
  have here (text : List Char) : stopHere (sequences ++ [sequence]) text =
      (stopHere sequences text).or (if sequence.toList.isPrefixOf text then some sequence else none) := by
    rw [stopHere, find?_append, find?_singleton]
    rfl
  induction text generalizing position with
  | nil =>
    simp only [firstStop, here, earlier, findText]
    cases stopHere sequences [] <;> cases sequence.toList.isPrefixOf [] <;> simp
  | cons character rest ih =>
    rw [firstStop, here, firstStop]
    cases known : stopHere sequences (character :: rest) with
    | some first =>
      show some (position, first) = earlier position (character :: rest) (some (position, first)) sequence
      unfold earlier
      split
      case h_1 => rfl
      case h_2 absent => cases absent
      case h_3 found current listed there same =>
        cases same
        rw [if_neg (Nat.not_lt.mpr (findText_le there))]
    | none =>
      simp only [Option.none_or, earlier, findText]
      by_cases begins : sequence.toList.isPrefixOf (character :: rest) = true
      · simp only [begins, if_true]
        cases later : firstStop sequences (position + 1) rest with
        | none => rfl
        | some best =>
          obtain ⟨current, known⟩ := best
          exact (if_pos (Nat.lt_of_succ_le (firstStop_le later))).symm
      · simp only [begins, if_false, Bool.false_eq_true, ih (position + 1)]
        rfl

theorem earliestMatch_eq (sequences : List String) (text : String) :
    earliestMatch text sequences = firstStop sequences 0 text.toList := by
  show sequences.foldl (earlier 0 text.toList) none = _
  induction sequences using List.reverseRecOn with
  | nil =>
    rw [firstStop_eq_none.mpr fun _ _ => rfl]
    rfl
  | append_singleton sequences sequence ih => rw [foldl_concat, ih, firstStop_concat]

/-! ### The runs of the filter -/

/-- No end of the text longer than `keep` begins a sequence. -/
def Held (sequences : List String) (text : List Char) (keep : Nat) : Prop :=
  ∀ ending, ending <:+ text → ∀ sequence ∈ sequences, ending <+: sequence.toList → ending.length ≤ keep

theorem pendingSuffix_le (sequences : List String) (text : List Char) : pendingSuffix sequences text ≤ text.length := by
  induction text with
  | nil => exact Nat.le_refl 0
  | cons character rest ih =>
    rw [pendingSuffix]
    split
    · exact Nat.le_refl _
    · exact ih.trans (Nat.le_succ _)

theorem pendingSuffix_held (sequences : List String) (text : List Char) :
    Held sequences text (pendingSuffix sequences text) := by
  induction text with
  | nil =>
    intro ending ends sequence _ _
    rw [suffix_nil.mp ends]
    exact Nat.zero_le _
  | cons character rest ih =>
    intro ending ends sequence listed begins
    rw [pendingSuffix]
    split
    case isTrue => exact ends.length_le
    case isFalse other =>
      rcases suffix_cons_iff.mp ends with rfl | later
      · exact absurd (any_eq_true.mpr ⟨sequence, listed, isPrefixOf_iff_prefix.mpr begins⟩) other
      · exact ih ending later sequence listed begins

namespace StopFilter

/-- All pushes. -/
def pushAll (filter : StopFilter) : List String → StopFilter × String
  | [] => (filter, "")
  | delta :: deltas =>
    let (next, text) := filter.push delta
    let (last, rest) := next.pushAll deltas
    (last, text ++ rest)

/-- What is sent of a text that comes in `deltas`, with the `flush` if nothing stopped, and what stopped it. -/
def run (sequences : List String) (deltas : List String) : String × Option String :=
  let (filter, text) := pushAll { sequences } deltas
  if filter.stopped.isSome then (text, filter.stopped) else (text ++ filter.flush.2, none)

theorem pushAll_stopped {filter : StopFilter} (stopped : filter.stopped.isSome) (deltas : List String) :
    filter.pushAll deltas = (filter, "") := by
  induction deltas with
  | nil => rfl
  | cons delta deltas ih =>
    have pushed : filter.push delta = (filter, "") := if_pos stopped
    simp [pushAll, pushed, ih]

end StopFilter

/-- Where the filter stops: at the first delta behind which some sequence is complete. -/
def stopAlong (sequences : List String) (text : List Char) : List String → Option (Nat × String)
  | [] => none
  | delta :: deltas =>
    match firstStop sequences 0 (text ++ delta.toList) with
    | some stop => some stop
    | none => stopAlong sequences (text ++ delta.toList) deltas

/-- A text up to its stop. -/
def cutAt (text : List Char) : Option (Nat × String) → String × Option String
  | none => (String.ofList text, none)
  | some (position, sequence) => (String.ofList (text.take position), some sequence)

/-- The filter behind a text without a stop: `sent` is what it has sent of it. -/
structure Waits (sequences : List String) (sent : List Char) (filter : StopFilter) : Prop where
  listed : filter.sequences = sequences
  running : filter.stopped = none
  unstopped : firstStop sequences 0 (sent ++ filter.buffer.toList) = none
  held : Held sequences (sent ++ filter.buffer.toList) filter.buffer.toList.length

section Waiting

variable {sent : List Char} {filter : StopFilter}

theorem Waits.sent_quiet (waits : Waits sequences sent filter) (delta : List Char) (offset : Nat)
    (inside : offset < sent.length) :
    stopHere sequences ((sent ++ (filter.buffer.toList ++ delta)).drop offset) = none := by
  have before := firstStop_eq_none.mp waits.unstopped offset (by rw [length_append]; omega)
  refine stopHere_eq_none.mpr fun sequence listed begins => ?_
  rw [← append_assoc, drop_append_of_le_length (by rw [length_append]; omega)] at begins
  rcases prefix_or_prefix_of_prefix begins (prefix_append _ _) with whole | part
  · exact stopHere_eq_none.mp before sequence listed whole
  · have short := waits.held _ (drop_suffix offset _) sequence listed part
    rw [length_drop, length_append] at short
    omega

theorem Waits.search (waits : Waits sequences sent filter) (delta : String) :
    firstStop sequences 0 (sent ++ (filter.buffer.toList ++ delta.toList)) =
      (earliestMatch (filter.buffer ++ delta) sequences).map fun stop => (sent.length + stop.1, stop.2) := by
  rw [firstStop_append sent (waits.sent_quiet delta.toList), earliestMatch_eq, String.toList_append, Nat.zero_add]
  cases first : firstStop sequences 0 (filter.buffer.toList ++ delta.toList) with
  | none => exact firstStop_eq_none.mpr (firstStop_eq_none.mp first)
  | some stop =>
    obtain ⟨position, sequence⟩ := stop
    obtain ⟨offset, rfl, rest⟩ := firstStop_eq_some.mp first
    exact firstStop_eq_some.mpr ⟨offset, by omega, rest⟩

theorem Waits.unsent (waits : Waits sequences sent filter) {delta ending : List Char} {sequence : String}
    (ends : ending <:+ sent ++ (filter.buffer.toList ++ delta)) (listed : sequence ∈ sequences)
    (begins : ending <+: sequence.toList) : ending <:+ filter.buffer.toList ++ delta := by
  rcases suffix_or_suffix_of_suffix ends (suffix_append sent _) with inside | ⟨front, rfl⟩
  · exact inside
  · obtain ⟨start, equal⟩ := ends
    have before : front ++ filter.buffer.toList <:+ sent ++ filter.buffer.toList := by
      have behind : (start ++ (front ++ filter.buffer.toList)) ++ delta = (sent ++ filter.buffer.toList) ++ delta := by
        simpa only [append_assoc] using equal
      exact ⟨start, append_cancel_right behind⟩
    have held := waits.held _ before sequence listed
      ((prefix_append_right_inj _ |>.mpr (prefix_append _ _)).trans begins)
    rw [length_append] at held
    rw [length_eq_zero_iff.mp (show front.length = 0 by omega)]
    exact suffix_rfl

theorem Waits.push_stops (waits : Waits sequences sent filter) {delta : String} {position : Nat} {sequence : String}
    (first : firstStop sequences 0 (sent ++ (filter.buffer.toList ++ delta.toList)) = some (position, sequence)) :
    ∃ next emitted, filter.push delta = (next, emitted) ∧ next.stopped = some sequence ∧
      sent ++ emitted.toList = (sent ++ (filter.buffer.toList ++ delta.toList)).take position := by
  rw [waits.search delta, Option.map_eq_some_iff] at first
  obtain ⟨stop, found, equal⟩ := first
  cases equal
  have pushed : filter.push delta =
      ({ filter with buffer := "", stopped := some stop.2 }, String.ofList ((filter.buffer ++ delta).toList.take stop.1)) := by
    simp only [StopFilter.push, waits.running, waits.listed, found]
    rfl
  refine ⟨_, _, pushed, rfl, ?_⟩
  · rw [take_length_add_append, String.toList_ofList, String.toList_append]

theorem Waits.push_waits (waits : Waits sequences sent filter) {delta : String}
    (none' : firstStop sequences 0 (sent ++ (filter.buffer.toList ++ delta.toList)) = none) :
    ∃ next emitted, filter.push delta = (next, emitted) ∧ Waits sequences (sent ++ emitted.toList) next ∧
      sent ++ emitted.toList ++ next.buffer.toList = sent ++ (filter.buffer.toList ++ delta.toList) := by
  have quiet := none'
  rw [waits.search delta, Option.map_eq_none_iff] at quiet
  have pushed : filter.push delta =
      (let whole := filter.buffer ++ delta
       let split := whole.toList.length - pendingSuffix sequences whole.toList
       ({ filter with buffer := String.ofList (whole.toList.drop split) }, String.ofList (whole.toList.take split))) := by
    simp only [StopFilter.push, waits.running, waits.listed, quiet]
    rfl
  have whole (split : Nat) : sent ++ (filter.buffer ++ delta).toList.take split ++ (filter.buffer ++ delta).toList.drop split =
      sent ++ (filter.buffer.toList ++ delta.toList) := by
    rw [append_assoc, take_append_drop, String.toList_append]
  refine ⟨_, _, pushed, ⟨waits.listed, waits.running, ?_, ?_⟩, ?_⟩
  · rw [String.toList_ofList, String.toList_ofList, whole]
    exact none'
  · rw [String.toList_ofList, String.toList_ofList, whole]
    intro ending ends sequence listed begins
    have unsent := waits.unsent ends listed begins
    rw [← String.toList_append] at unsent
    have short := pendingSuffix_held sequences _ ending unsent sequence listed begins
    have most := pendingSuffix_le sequences (filter.buffer ++ delta).toList
    rw [length_drop]
    omega
  · rw [String.toList_ofList, String.toList_ofList, whole]

theorem Waits.pushAll (waits : Waits sequences sent filter) (deltas : List String) :
    let (last, text) := filter.pushAll deltas
    (String.ofList sent ++ if last.stopped.isSome then text else text ++ last.flush.2, last.stopped) =
      cutAt (sent ++ (filter.buffer.toList ++ (String.join deltas).toList))
        (stopAlong sequences (sent ++ filter.buffer.toList) deltas) := by
  induction deltas generalizing sent filter with
  | nil =>
    simp [StopFilter.pushAll, stopAlong, cutAt, waits.running, StopFilter.flush]
  | cons delta deltas ih =>
    have whole : sent ++ (filter.buffer.toList ++ (String.join (delta :: deltas)).toList) =
        sent ++ (filter.buffer.toList ++ delta.toList) ++ (String.join deltas).toList := by
      simp [String.join_cons]
    have along : stopAlong sequences (sent ++ filter.buffer.toList) (delta :: deltas) =
        match firstStop sequences 0 (sent ++ (filter.buffer.toList ++ delta.toList)) with
        | some stop => some stop
        | none => stopAlong sequences (sent ++ (filter.buffer.toList ++ delta.toList)) deltas := by
      rw [stopAlong, append_assoc]
    rw [along, whole]
    cases first : firstStop sequences 0 (sent ++ (filter.buffer.toList ++ delta.toList)) with
    | some stop =>
      obtain ⟨position, sequence⟩ := stop
      obtain ⟨next, emitted, pushed, stopped, cut⟩ := waits.push_stops first
      obtain ⟨offset, found, -, -, inside⟩ := firstStop_eq_some.mp first
      simp only [StopFilter.pushAll, pushed, StopFilter.pushAll_stopped (stopped ▸ rfl : next.stopped.isSome), stopped,
        Option.isSome_some, if_true, cutAt, Prod.mk.injEq, and_true]
      rw [take_append_of_le_length (by omega), ← cut]
      simp
    | none =>
      obtain ⟨next, emitted, pushed, waits', same⟩ := waits.push_waits first
      have rest := ih waits'
      simp only [← append_assoc] at rest same ⊢
      simp only [same] at rest
      rw [← rest]
      simp only [StopFilter.pushAll, pushed, String.ofList_append, String.ofList_toList, Prod.mk.injEq, and_true]
      split <;> simp [String.append_assoc]

end Waiting

/-- **The filter stops at the first delta behind which some sequence is complete.** -/
theorem run_eq (nonempty : "" ∉ sequences) (deltas : List String) :
    StopFilter.run sequences deltas = cutAt (String.join deltas).toList (stopAlong sequences [] deltas) := by
  have quiet : stopHere sequences [] = none := stopHere_eq_none.mpr fun sequence listed begins => by
    rw [prefix_nil, String.toList_eq_nil_iff] at begins
    exact nonempty (begins ▸ listed)
  have waits : Waits sequences [] { sequences } := by
    refine ⟨rfl, rfl, firstStop_eq_none.mpr fun offset _ => ?_, fun ending ends _ _ _ => ?_⟩
    · simpa using quiet
    · simpa using ends.length_le
  have all := waits.pushAll deltas
  simp only [String.toList_empty, nil_append, append_nil] at all
  rw [← all, StopFilter.run]
  cases stopped : (StopFilter.pushAll { sequences } deltas).1.stopped <;> simp [stopped]

/-! ### Every cut of a text -/

section Prefixes

variable {shorter : List Char} {position offset : Nat} {sequence other : String}

theorem firstStop_occurs (first : firstStop sequences 0 text = some (position, sequence)) :
    Occurs sequences text position sequence := by
  obtain ⟨offset, rfl, here, -, -⟩ := firstStop_eq_some.mp first
  rw [Nat.zero_add]
  exact stopHere_occurs here

theorem firstStop_inside (first : firstStop sequences 0 text = some (position, sequence)) :
    position + sequence.toList.length ≤ text.length := by
  obtain ⟨offset, rfl, here, -, inside⟩ := firstStop_eq_some.mp first
  have short := (stopHere_occurs here).2.length_le
  rw [length_drop] at short
  omega

theorem firstStop_first (first : firstStop sequences 0 text = some (position, sequence))
    (occurs : Occurs sequences text offset other) : position ≤ offset := by
  obtain ⟨start, rfl, -, none, -⟩ := firstStop_eq_some.mp first
  by_contra before
  exact stopHere_eq_none.mp (none offset (by omega)) other occurs.1 occurs.2

theorem firstStop_isSome (occurs : Occurs sequences text offset other) (inside : offset ≤ text.length) :
    (firstStop sequences 0 text).isSome := by
  rw [Option.isSome_iff_ne_none]
  intro absent
  exact stopHere_eq_none.mp (firstStop_eq_none.mp absent offset inside) other occurs.1 occurs.2

theorem Occurs.longer (occurs : Occurs sequences shorter offset other) (begins : shorter <+: text) :
    Occurs sequences text offset other :=
  ⟨occurs.1, occurs.2.trans (begins.drop offset)⟩

theorem firstStop_of_prefixed (begins : shorter <+: text) (first : firstStop sequences 0 text = some (position, sequence))
    (complete : position + sequence.toList.length ≤ shorter.length) :
    firstStop sequences 0 shorter = some (position, sequence) := by
  obtain ⟨start, rfl, here, none, -⟩ := firstStop_eq_some.mp first
  rw [Nat.zero_add] at complete ⊢
  obtain ⟨listed, stands⟩ := stopHere_occurs here
  have stands' : sequence.toList <+: shorter.drop start :=
    prefix_of_prefix_length_le stands (begins.drop start) (by rw [length_drop]; omega)
  have found : (stopHere sequences (shorter.drop start)).isSome := by
    rw [Option.isSome_iff_ne_none]
    intro absent
    exact stopHere_eq_none.mp absent sequence listed stands'
  obtain ⟨first', found⟩ := Option.isSome_iff_exists.mp found
  refine firstStop_eq_some.mpr ⟨start, (Nat.zero_add _).symm, ?_, fun earlier before => ?_, by omega⟩
  · rw [found, stopHere_prefix (begins.drop start) here stands' found]
  · exact stopHere_eq_none.mpr fun other listed stands =>
      stopHere_eq_none.mp (none earlier before) other listed (stands.trans (begins.drop earlier))

end Prefixes

/-- What is sent of a text, and what stops it: the text up to where a sequence begins earliest. -/
def cutText (sequences : List String) (text : String) : String × Option String :=
  cutAt text.toList (firstStop sequences 0 text.toList)

/-- However a text is cut into deltas, it is sent up to where a sequence begins earliest, and the same sequence stops it. -/
structure SplitIndependent (sequences : List String) (text : String) : Prop where
  emitted : ∀ deltas, String.join deltas = text → (StopFilter.run sequences deltas).1 = (cutText sequences text).1
  stopped : ∀ deltas other, String.join deltas = text → String.join other = text →
    (StopFilter.run sequences deltas).2 = (StopFilter.run sequences other).2

/-- No sequence ends in the text before the end of the one that begins earliest, the first listed of those that begin
there. -/
def CompletesFirst (sequences : List String) (text : List Char) : Prop :=
  ∀ position sequence, firstStop sequences 0 text = some (position, sequence) →
    ∀ offset other, Occurs sequences text offset other →
      position + sequence.toList.length ≤ offset + other.toList.length

theorem stopAlong_eq (completes : CompletesFirst sequences text) {before : List Char} {deltas : List String}
    (whole : before ++ (String.join deltas).toList = text) (running : firstStop sequences 0 before = none) :
    stopAlong sequences before deltas = firstStop sequences 0 text := by
  induction deltas generalizing before with
  | nil =>
    rw [← whole, stopAlong]
    simpa using running.symm
  | cons delta deltas ih =>
    rw [String.join_cons, String.toList_append, ← append_assoc] at whole
    rw [stopAlong]
    cases first : firstStop sequences 0 (before ++ delta.toList) with
    | none => exact ih whole first
    | some stop =>
      obtain ⟨offset, other⟩ := stop
      have begins : before ++ delta.toList <+: text := whole ▸ prefix_append _ _
      have inside := firstStop_inside first
      have occurs := (firstStop_occurs first).longer begins
      have long := begins.length_le
      obtain ⟨⟨position, sequence⟩, winner⟩ := Option.isSome_iff_exists.mp (firstStop_isSome occurs (by omega))
      have ends := completes position sequence winner offset other occurs
      exact first.symm.trans ((firstStop_of_prefixed begins winner (ends.trans inside)).trans winner.symm)

/-- **What the filter sends does not depend on the deltas exactly when no sequence is complete before the one that begins
earliest.** -/
theorem split_independent_iff (sequences : List String) (nonempty : "" ∉ sequences) (text : String) :
    SplitIndependent sequences text ↔ CompletesFirst sequences text.toList := by
  constructor
  · intro independent position sequence winner offset other occurs
    by_contra early
    -- The text is cut where the other sequence ends.
    let front := text.toList.take (offset + other.toList.length)
    let deltas := [String.ofList front, String.ofList (text.toList.drop (offset + other.toList.length))]
    have whole : String.join deltas = text := by
      simp [deltas, front, String.join_cons, ← String.ofList_append]
    have single : String.join [text] = text := by simp [String.join_cons]
    have inside := firstStop_inside winner
    have there : Occurs sequences front offset other := by
      refine ⟨occurs.1, ?_⟩
      rw [drop_take, Nat.add_sub_cancel_left]
      exact prefix_take_iff.mpr ⟨occurs.2, Nat.le_refl _⟩
    obtain ⟨⟨start, named⟩, first⟩ := Option.isSome_iff_exists.mp
      (firstStop_isSome there (by simp only [front, length_take]; omega))
    have ends := firstStop_inside first
    have emitted := independent.emitted deltas whole
    have stopped := independent.stopped deltas [text] whole single
    have along : stopAlong sequences [] deltas = some (start, named) := by
      simp only [deltas, stopAlong, nil_append, String.toList_ofList, first]
    have along' : stopAlong sequences [] [text] = some (position, sequence) := by
      simp only [stopAlong, nil_append, winner]
    rw [run_eq nonempty, run_eq nonempty, along, along'] at stopped
    rw [run_eq nonempty, along, whole, cutText, winner] at emitted
    have lengths := congrArg (fun sent => sent.toList.length) emitted
    simp only [cutAt, String.toList_ofList, length_take] at lengths
    have same : named = sequence := Option.some.inj stopped
    rw [same] at ends
    simp only [front, length_take] at ends
    omega
  · intro completes
    have run {deltas : List String} (whole : String.join deltas = text) :
        StopFilter.run sequences deltas = cutText sequences text := by
      have quiet : stopHere sequences [] = none := stopHere_eq_none.mpr fun sequence listed begins => by
        rw [prefix_nil, String.toList_eq_nil_iff] at begins
        exact nonempty (begins ▸ listed)
      have running : firstStop sequences 0 [] = none := by rw [firstStop, quiet, Option.map_none]
      rw [run_eq nonempty, cutText, whole, stopAlong_eq completes (by rw [whole, nil_append]) running]
    exact ⟨fun deltas whole => by rw [run whole], fun deltas other whole whole' => by rw [run whole, run whole']⟩

/-- A single sequence is the one that begins earliest. -/
theorem split_independent_iff_single : SplitIndependent ["STOP"] "so STOP here" := by
  refine (split_independent_iff ["STOP"] (by decide) "so STOP here").mpr fun position sequence first offset other occurs => ?_
  have begins := firstStop_first first occurs
  rw [mem_singleton.mp (firstStop_occurs first).1, mem_singleton.mp occurs.1]
  omega

/-- Half of a stop sequence is sent, when a shorter one inside it is complete with a delta. -/
theorem split_sends_half : ¬ ∀ (sequences : List String), "" ∉ sequences → ∀ text, SplitIndependent sequences text := by
  intro always
  have emitted := (always ["</end>", "end"] (by decide) "</end>").emitted ["</end", ">"] (by decide +kernel)
  exact absurd emitted (by decide +kernel)

end Byok.Gateway
