/-
**Ordered delivery of client appends.**

A run of an inbox: any pushes, at any instants. `WatchedInbox` keeps beside the inbox what a client can
see of the run, and since when the present gap is open.

* `WatchedInbox.Sound`, `push_sound` — the invariant of every run.
* `Orderly` — what the delivery promises of a step. All of it holds in every run except the last part,
  that no gap is given up before its time (`orderly_iff`).
* `Timed` — the steps that keep the promise. `gap_since` is not reset when a gap is filled while messages
  wait behind a later one, so it may be the time of a gap that is long gone.
-/

import Byok.Cursor.Transport.Inbox
import Byok.Library.System

namespace Byok

open Library List

/-- A push: when, and what. -/
structure Push (α : Type) where
  now : Nat
  seqno : Int
  value : α
deriving DecidableEq

/-- An inbox, and what happened to it. `opened` is when the cursor came to its place with messages waiting
beyond it; `accepted` are the pushes that were neither too late nor duplicates of waiting ones. -/
structure WatchedInbox (α : Type) where
  inbox : OrderedInbox α
  pushed : List (Int × α)
  accepted : List (Int × α)
  delivered : List (Int × α)
  opened : Option Nat

namespace WatchedInbox

variable {α : Type}

/-- An inbox that was just made. -/
def startingAt (next : Int) : WatchedInbox α := ⟨.startingAt next, [], [], [], none⟩

/-- Since when the gap is open, after a push at `now`. -/
def openedAfter (before : WatchedInbox α) (now : Nat) (after : OrderedInbox α) : Option Nat :=
  if after.pending.isEmpty then none
  else if after.next = before.inbox.next then some (before.opened.getD now)
  else some now

def push (before : WatchedInbox α) (push : Push α) : WatchedInbox α where
  inbox := (before.inbox.pushAt push.now push.seqno push.value).2
  pushed := before.pushed ++ [(push.seqno, push.value)]
  accepted := if before.inbox.drops push.seqno then before.accepted
    else before.accepted ++ [(push.seqno, push.value)]
  delivered := before.delivered ++ (before.inbox.pushAt push.now push.seqno push.value).1
  opened := before.openedAfter push.now (before.inbox.pushAt push.now push.seqno push.value).2

/-- The runs of an inbox. -/
def system : System (WatchedInbox α) (Push α) where
  initial state := ∃ next, state = startingAt next
  step before push after := push.seqno < i64Max ∧ after = before.push push

/-! ### The promise, and when it is kept -/

/-- A reason to give up a gap: the inbox finds out where the numbers start, too many messages wait, or the
gap is open for long enough. -/
inductive Excused (before : WatchedInbox α) (push : Push α) : Prop
  | starts (aligns : before.inbox.aligned push.seqno ≠ before.inbox.next)
      (first : before.accepted = [])
  | full (many : pendingLimit < before.inbox.pending.size + 1)
  | expired {since : Nat} (opened : before.opened = some since)
      (long : since + gapTimeout ≤ push.now)

/-- What the delivery promises of a push. -/
structure Orderly (before : WatchedInbox α) (push : Push α) (after : WatchedInbox α) : Prop where
  increasing : after.delivered.Pairwise fun first second => first.1 < second.1
  first : ∀ entry ∈ after.delivered, after.pushed.find? (fun pushed => pushed.1 == entry.1) = some entry
  kept : ∀ entry ∈ after.accepted,
    entry ∈ after.delivered ∨ after.inbox.pending[entry.1]? = some entry.2
  bounded : after.inbox.pending.size ≤ pendingLimit
  givenUp : ∀ seqno, before.inbox.next ≤ seqno → seqno < after.inbox.next →
    (∀ value, (seqno, value) ∉ after.delivered) → before.Excused push

/-- A push is timed when it does not come while the timer has expired for a gap that is younger, and when
it does not start the numbers again. -/
structure Timed (before : WatchedInbox α) (push : Push α) : Prop where
  expires : before.inbox.drops push.seqno = false →
    before.inbox.aligned push.seqno ≠ push.seqno → before.inbox.pending.size < pendingLimit →
    ∀ since ∈ before.inbox.gapSince, since + gapTimeout ≤ push.now →
    ∀ opened ∈ before.opened, opened + gapTimeout ≤ push.now
  starts : before.inbox.drops push.seqno = false →
    before.inbox.aligned push.seqno ≠ before.inbox.next → before.accepted = []

/-! ### The invariant -/

/-- What holds of every inbox that is in use. -/
structure Sound (state : WatchedInbox α) : Prop where
  settled : state.inbox.Settled
  known : ∀ entry ∈ state.pushed, entry.1 < state.inbox.next ∨ entry.1 ∈ state.inbox.pending
  behind : ∀ entry ∈ state.delivered, entry.1 < state.inbox.next
  increasing : state.delivered.Pairwise fun first second => first.1 < second.1
  first : ∀ entry ∈ state.delivered, state.pushed.find? (fun pushed => pushed.1 == entry.1) = some entry
  waiting : ∀ (seqno : Int) (value : α), state.inbox.pending[seqno]? = some value →
    state.pushed.find? (fun pushed => pushed.1 == seqno) = some (seqno, value)
  kept : ∀ entry ∈ state.accepted,
    entry ∈ state.delivered ∨ state.inbox.pending[entry.1]? = some entry.2
  opened : state.opened = none ↔ state.inbox.pending.isEmpty

theorem startingAt_sound (next : Int) : (startingAt next : WatchedInbox α).Sound where
  settled := OrderedInbox.startingAt_settled next
  known entry member := by cases member
  behind entry member := by cases member
  increasing := .nil
  first entry member := by cases member
  waiting seqno value found := by
    rw [startingAt, OrderedInbox.startingAt, Std.TreeMap.getElem?_emptyc] at found
    cases found
  kept entry member := by cases member
  opened := by simp [startingAt, OrderedInbox.startingAt]

theorem openedAfter_none {before : WatchedInbox α} {now : Nat} {after : OrderedInbox α} :
    before.openedAfter now after = none ↔ after.pending.isEmpty := by
  unfold openedAfter
  by_cases empty : after.pending.isEmpty = true
  · simp [empty]
  · rw [if_neg empty]
    by_cases same : after.next = before.inbox.next
    · simp [same, empty]
    · simp [same, empty]

theorem push_drops {before : WatchedInbox α} (sound : before.Sound) {push : Push α}
    (late : before.inbox.drops push.seqno = true) :
    before.push push =
      { before with pushed := before.pushed ++ [(push.seqno, push.value)] } := by
  have ignored : before.inbox.pushAt push.now push.seqno push.value = ([], before.inbox) := by
    unfold OrderedInbox.pushAt
    rw [if_pos late]
  have opened : before.openedAfter push.now before.inbox = before.opened := by
    unfold openedAfter
    by_cases empty : before.inbox.pending.isEmpty = true
    · rw [if_pos empty, sound.opened.mpr empty]
    · rw [if_neg empty, if_pos rfl]
      cases since : before.opened with
      | none => exact absurd (sound.opened.mp since) empty
      | some since => rfl
  unfold WatchedInbox.push
  rw [ignored, if_pos late, append_nil, opened]

theorem find_append {pushed : List (Int × α)} {seqno : Int} {entry more : Int × α}
    (found : pushed.find? (fun pushed => pushed.1 == seqno) = some entry) :
    (pushed ++ [more]).find? (fun pushed => pushed.1 == seqno) = some entry := by
  rw [find?_append, found, Option.some_or]

theorem find_new {pushed : List (Int × α)} (entry : Int × α)
    (fresh : ∀ old ∈ pushed, old.1 ≠ entry.1) :
    (pushed ++ [entry]).find? (fun pushed => pushed.1 == entry.1) = some entry := by
  have none : pushed.find? (fun pushed => pushed.1 == entry.1) = none := by
    rw [find?_eq_none]
    intro old member
    rw [beq_iff_eq]
    exact fresh old member
  rw [find?_append, none, Option.none_or]
  exact find?_cons_of_pos (beq_self_eq_true entry.1)

theorem Sound.moves {before : WatchedInbox α} (sound : before.Sound) {push : Push α}
    (fresh : before.inbox.drops push.seqno = false)
    (moves : before.inbox.Moves push.seqno push.value
      (before.inbox.pushAt push.now push.seqno push.value).1
      (before.inbox.pushAt push.now push.seqno push.value).2) :
    (before.push push).Sound := by
  have ⟨low, absent⟩ := (OrderedInbox.fresh_iff before.inbox push.seqno).mp fresh
  unfold WatchedInbox.push
  rw [if_neg (by rw [fresh]; exact Bool.false_ne_true)]
  generalize before.inbox.pushAt push.now push.seqno push.value = result at moves
  obtain ⟨ready, after⟩ := result
  have kept : ∀ (seqno : Int) (value : α), before.inbox.pending[seqno]? = some value →
      (before.inbox.pending.insert push.seqno push.value)[seqno]? = some value := by
    intro seqno value found
    have other : push.seqno ≠ seqno := by
      rintro same
      rw [same] at absent
      exact absent (OrderedInbox.mem_of_found found)
    rw [OrderedInbox.found_insert, if_neg other, found]
  have first : ∀ (seqno : Int) (value : α),
      (before.inbox.pending.insert push.seqno push.value)[seqno]? = some value →
      before.inbox.next ≤ seqno ∧
      (before.pushed ++ [(push.seqno, push.value)]).find? (fun pushed => pushed.1 == seqno) =
        some (seqno, value) := by
    intro seqno value found
    rw [OrderedInbox.found_insert] at found
    by_cases same : push.seqno = seqno
    · subst same
      rw [if_pos rfl] at found
      obtain rfl := Option.some.inj found
      refine ⟨low, find_new (push.seqno, push.value) fun old member => ?_⟩
      rcases sound.known old member with behind | waits
      · exact Int.ne_of_lt (Int.lt_of_lt_of_le behind low)
      · intro same
        rw [same] at waits
        exact absent waits
    · rw [if_neg same] at found
      have ahead := (sound.settled.ahead seqno (OrderedInbox.mem_of_found found)).1
      exact ⟨Int.le_of_lt ahead, find_append (sound.waiting seqno value found)⟩
  have lands : ∀ (seqno : Int) (value : α),
      (before.inbox.pending.insert push.seqno push.value)[seqno]? = some value →
      (seqno, value) ∈ ready ∧ seqno < after.next ∨ after.pending[seqno]? = some value := by
    intro seqno value found
    by_cases high : seqno < after.next
    · exact .inl ⟨(moves.hands seqno value).mpr ⟨high, found⟩, high⟩
    · right
      rw [moves.leaves, if_neg high, found]
  have new : (before.inbox.pending.insert push.seqno push.value)[push.seqno]? = some push.value := by
    rw [OrderedInbox.found_insert, if_pos rfl]
  have le := moves.le
  refine ⟨moves.settled, ?known, ?behind, ?increasing, ?first, ?waiting, ?kept, openedAfter_none⟩
  case known =>
    intro entry member
    have waits : ∀ value, (before.inbox.pending.insert push.seqno push.value)[entry.1]? = some value →
        entry.1 < after.next ∨ entry.1 ∈ after.pending := by
      intro value found
      rcases lands entry.1 value found with handed | held
      · exact .inl handed.2
      · exact .inr (OrderedInbox.mem_of_found held)
    rcases mem_append.mp member with old | this
    · rcases sound.known entry old with behind | held
      · exact .inl (Int.lt_of_lt_of_le behind le)
      · obtain ⟨value, found⟩ :=
          Option.isSome_iff_exists.mp (Std.TreeMap.mem_iff_isSome_getElem?.mp held)
        exact waits value (kept entry.1 value found)
    · obtain rfl := mem_singleton.mp this
      exact waits push.value new
  case behind =>
    intro entry member
    rcases mem_append.mp member with old | this
    · exact Int.lt_of_lt_of_le (sound.behind entry old) le
    · exact ((moves.hands entry.1 entry.2).mp this).1
  case increasing =>
    refine pairwise_append.mpr ⟨sound.increasing, moves.sorted, fun old member entry this => ?_⟩
    have low := (first entry.1 entry.2 ((moves.hands entry.1 entry.2).mp this).2).1
    exact Int.lt_of_lt_of_le (sound.behind old member) low
  case first =>
    intro entry member
    rcases mem_append.mp member with old | this
    · exact find_append (sound.first entry old)
    · exact (first entry.1 entry.2 ((moves.hands entry.1 entry.2).mp this).2).2
  case waiting =>
    intro seqno value found
    rw [moves.leaves] at found
    by_cases high : seqno < after.next
    · rw [if_pos high] at found
      cases found
    · rw [if_neg high] at found
      exact (first seqno value found).2
  case kept =>
    have arrives : ∀ entry : Int × α,
        (before.inbox.pending.insert push.seqno push.value)[entry.1]? = some entry.2 →
        entry ∈ before.delivered ++ ready ∨ after.pending[entry.1]? = some entry.2 := by
      intro entry found
      rcases lands entry.1 entry.2 found with handed | held
      · exact .inl (mem_append_right _ handed.1)
      · exact .inr held
    intro entry member
    rcases mem_append.mp member with old | this
    · rcases sound.kept entry old with delivered | held
      · exact .inl (mem_append_left _ delivered)
      · exact arrives entry (kept entry.1 entry.2 held)
    · obtain rfl := mem_singleton.mp this
      exact arrives _ new

theorem push_sound {before : WatchedInbox α} (sound : before.Sound) {push : Push α}
    (small : push.seqno < i64Max) : (before.push push).Sound := by
  cases fresh : before.inbox.drops push.seqno with
  | false =>
    have pushed := OrderedInbox.pushAt_pushed sound.settled push.now small push.value
    exact sound.moves fresh (pushed.moves sound.settled fresh small)
  | true =>
    rw [push_drops sound fresh]
    have late : push.seqno < before.inbox.next ∨ push.seqno ∈ before.inbox.pending := by
      unfold OrderedInbox.drops at fresh
      rw [Bool.or_eq_true, decide_eq_true_eq] at fresh
      exact fresh
    refine ⟨sound.settled, fun entry member => ?_, sound.behind, sound.increasing,
      fun entry member => find_append (sound.first entry member),
      fun seqno value found => find_append (sound.waiting seqno value found), sound.kept, sound.opened⟩
    rcases mem_append.mp member with old | this
    · exact sound.known entry old
    · obtain rfl := mem_singleton.mp this
      exact late

/-! ### Giving up gaps -/

section Push

variable {before : WatchedInbox α} {push : Push α}

theorem undelivered (sound : before.Sound) (fresh : before.inbox.drops push.seqno = false)
    (small : push.seqno < i64Max) {seqno : Int} (ahead : before.inbox.next ≤ seqno)
    (missing : (before.inbox.pending.insert push.seqno push.value)[seqno]? = none) :
    ∀ value, (seqno, value) ∉ (before.push push).delivered := by
  intro value delivered
  have pushed := OrderedInbox.pushAt_pushed sound.settled push.now small push.value
  have moves := pushed.moves sound.settled fresh small
  rcases mem_append.mp delivered with old | this
  · have behind : seqno < before.inbox.next := sound.behind _ old
    omega
  · rw [((moves.hands seqno value).mp this).2] at missing
    cases missing

theorem Timed.excused (timed : Timed before push) (sound : before.Sound) (small : push.seqno < i64Max)
    {seqno : Int} (ahead : before.inbox.next ≤ seqno)
    (passed : seqno < (before.push push).inbox.next)
    (never : ∀ value, (seqno, value) ∉ (before.push push).delivered) : before.Excused push := by
  have pushed := OrderedInbox.pushAt_pushed sound.settled push.now small push.value
  change seqno < (before.inbox.pushAt push.now push.seqno push.value).2.next at passed
  have lost : ∀ value, (seqno, value) ∉ (before.inbox.pushAt push.now push.seqno push.value).1 :=
    fun value handed => never value (mem_append_right _ handed)
  generalize before.inbox.pushAt push.now push.seqno push.value = result at pushed passed lost
  obtain ⟨ready, after⟩ := result
  cases pushed with
  | drops late => exact absurd passed (Int.not_lt.mpr ahead)
  | waits => exact absurd passed (Int.not_lt.mpr ahead)
  | delivers fresh expected drained settled =>
    -- Everything from the pushed number on is delivered, so the cursor was aligned past `seqno`.
    have skipped : seqno < push.seqno := by
      refine Int.not_le.mp fun low => ?_
      obtain ⟨value, found⟩ := Option.isSome_iff_exists.mp
        (Std.TreeMap.mem_iff_isSome_getElem?.mp (drained.full seqno low passed))
      exact lost value ((drained.hands seqno value).mpr ⟨low, passed, found⟩)
    have aligns : before.inbox.aligned push.seqno ≠ before.inbox.next := by
      rw [expected]
      omega
    exact .starts aligns (timed.starts fresh aligns)
  | skips fresh stays gap reason least drained settled =>
    by_cases many : pendingLimit ≤ before.inbox.pending.size
    · exact .full (by omega)
    · have long := reason.resolve_left many
      cases timer : before.inbox.gapSince with
      | none =>
        rw [timer, Option.getD_none] at long
        unfold gapTimeout at long
        omega
      | some since =>
        rw [timer, Option.getD_some] at long
        cases opened : before.opened with
        | none =>
          have waits := sound.settled.timed (by rw [timer]; exact Option.some_ne_none since)
          rw [sound.opened.mp opened] at waits
          cases waits
        | some opened' =>
          have apart : before.inbox.aligned push.seqno ≠ push.seqno := by
            rw [stays]
            omega
          exact .expired opened
            (timed.expires fresh apart (by omega) since timer long opened' opened)

theorem Orderly.timed (orderly : Orderly before push (before.push push)) (sound : before.Sound)
    (small : push.seqno < i64Max) : Timed before push where
  starts fresh aligns := by
    -- The cursor leaves 0 behind, with nothing waiting.
    obtain ⟨expected, zero, empty, positive⟩ :=
      (OrderedInbox.aligned_cases before.inbox push.seqno).resolve_right aligns
    have pushed := OrderedInbox.pushAt_pushed sound.settled push.now small push.value
    have passed : before.inbox.next < (before.push push).inbox.next := by
      show before.inbox.next < (before.inbox.pushAt push.now push.seqno push.value).2.next
      generalize before.inbox.pushAt push.now push.seqno push.value = result at pushed
      obtain ⟨ready, after⟩ := result
      cases pushed with
      | drops late =>
        rw [fresh] at late
        cases late
      | delivers _ _ drained => exact Int.lt_of_lt_of_le (by omega) drained.le
      | waits _ stays => exact absurd stays aligns
      | skips _ stays => exact absurd stays aligns
    have missing : (before.inbox.pending.insert push.seqno push.value)[before.inbox.next]? = none := by
      rw [OrderedInbox.found_insert, if_neg (by omega)]
      exact Std.TreeMap.getElem?_of_isEmpty empty
    have excuse := orderly.givenUp before.inbox.next (Int.le_refl _) passed
      (undelivered sound fresh small (Int.le_refl _) missing)
    cases excuse with
    | starts _ first => exact first
    | full many =>
      rw [Std.TreeMap.isEmpty_eq_size_eq_zero, beq_iff_eq] at empty
      unfold pendingLimit at many
      omega
    | expired opened _ =>
      rw [sound.opened.mpr empty] at opened
      cases opened
  expires fresh unexpected few since timer long opened running := by
    -- The gap at the cursor is given up.
    have stays : before.inbox.aligned push.seqno = before.inbox.next :=
      (OrderedInbox.aligned_cases before.inbox push.seqno).resolve_left fun first => unexpected first.1
    have gap : before.inbox.next < push.seqno := by
      have low := ((OrderedInbox.fresh_iff before.inbox push.seqno).mp fresh).1
      omega
    have missing : (before.inbox.pending.insert push.seqno push.value)[before.inbox.next]? = none := by
      refine Option.eq_none_iff_forall_not_mem.mpr fun found held => ?_
      have beyond := OrderedInbox.insert_beyond sound.settled gap small push.value _
        (OrderedInbox.mem_of_found held)
      omega
    have pushed := OrderedInbox.pushAt_pushed sound.settled push.now small push.value
    have passed : before.inbox.next < (before.push push).inbox.next := by
      show before.inbox.next < (before.inbox.pushAt push.now push.seqno push.value).2.next
      generalize before.inbox.pushAt push.now push.seqno push.value = result at pushed
      obtain ⟨ready, after⟩ := result
      cases pushed with
      | drops late =>
        rw [fresh] at late
        cases late
      | delivers _ expected => exact absurd expected unexpected
      | waits _ _ _ _ young =>
        rw [timer, Option.getD_some] at young
        omega
      | skips _ _ _ _ least drained => exact Int.lt_of_lt_of_le least.1 drained.le
    have excuse := orderly.givenUp before.inbox.next (Int.le_refl _) passed
      (undelivered sound fresh small (Int.le_refl _) missing)
    cases excuse with
    | starts aligns => exact absurd stays aligns
    | full many => omega
    | expired opened' long' =>
      rw [opened', Option.mem_some] at running
      rwa [← running]

theorem orderly_iff (sound : before.Sound) (small : push.seqno < i64Max) :
    Orderly before push (before.push push) ↔ Timed before push := by
  constructor
  · intro orderly
    exact orderly.timed sound small
  · intro timed
    have after := push_sound sound small
    exact ⟨after.increasing, after.first, after.kept, after.settled.few,
      fun seqno ahead passed never => timed.excused sound small ahead passed never⟩

end Push

/-! ### Runs -/

/-- The state that a list of pushes leads to. -/
def pushAll (start : WatchedInbox α) (pushes : List (Push α)) : WatchedInbox α :=
  pushes.foldl WatchedInbox.push start

theorem pushAll_run (start : WatchedInbox α) (pushes : List (Push α))
    (small : ∀ push ∈ pushes, push.seqno < i64Max) :
    system.Run start pushes (pushAll start pushes) := by
  induction pushes generalizing start with
  | nil => exact .nil
  | cons push pushes ih =>
    obtain ⟨first, rest⟩ := forall_mem_cons.mp small
    exact System.Run.cons ⟨first, rfl⟩ (ih (start.push push) rest)

theorem run_pushAll {start last : WatchedInbox α} {pushes : List (Push α)}
    (run : system.Run start pushes last) : last = pushAll start pushes := by
  induction run with
  | nil => rfl
  | snoc _ step ih =>
    rw [step.2, ih, pushAll, pushAll, foldl_append]
    rfl

/-- **A run keeps the promise of ordered delivery exactly when all its pushes are timed.** -/
theorem ordered_delivery_iff {start last : WatchedInbox α} {pushes : List (Push α)}
    (starts : system.initial start) :
    (system.confine Orderly).Run start pushes last ↔
      (system.confine fun before push _ => Timed before push).Run start pushes last := by
  obtain ⟨next, rfl⟩ := starts
  refine System.Run.confine_congr (fun before push after sound step => ?_)
    (fun before push after sound step => ?_) (startingAt_sound next)
  · obtain ⟨small, rfl⟩ := step
    exact push_sound sound small
  · obtain ⟨small, rfl⟩ := step
    exact orderly_iff sound small

/-- A gap at 1 is open from the start. When it is filled after 9 s, one at 3 is left. -/
def twoGaps : List (Push Nat) :=
  [⟨0, 0, 0⟩, ⟨0, 2, 2⟩, ⟨0, 4, 4⟩, ⟨9000000000, 1, 1⟩]

/-- One second later the gap at 3 is given up. -/
theorem young_gap_lost :
    ¬ ∀ (start last : WatchedInbox Nat) (pushes : List (Push Nat)), system.initial start →
      pushes.Pairwise (fun first second => first.now ≤ second.now) →
      system.Run start pushes last → (system.confine Orderly).Run start pushes last := by
  intro always
  have ordered := always (startingAt 0) _ (twoGaps ++ [⟨10000000000, 5, 5⟩]) ⟨0, rfl⟩ (by decide)
    (pushAll_run _ _ (by decide))
  obtain ⟨before, run, step⟩ := ordered.unsnoc
  obtain rfl := run_pushAll run.unconfine
  have lost : ∀ entry ∈ (pushAll (startingAt 0) (twoGaps ++ [⟨10000000000, 5, 5⟩])).delivered,
      entry.1 ≠ 3 := by decide +kernel
  have excuse := step.2.givenUp 3 (by decide +kernel) (by decide +kernel)
    fun value delivered => lost (3, value) delivered rfl
  cases excuse with
  | starts _ first => exact absurd first (by decide +kernel)
  | full many => exact absurd many (by decide +kernel)
  | expired opened long =>
    have since : (pushAll (startingAt 0) twoGaps).opened = some 9000000000 := by decide +kernel
    rw [since] at opened
    obtain rfl := Option.some.inj opened
    exact absurd long (by decide +kernel)

theorem timed_of_since {before : WatchedInbox α} {push : Push α}
    (since : before.inbox.gapSince = before.opened)
    (stays : before.inbox.aligned push.seqno = before.inbox.next) : Timed before push where
  expires _ _ _ timer waits long opened running := by
    rw [since, running] at waits
    rwa [Option.some.inj waits]
  starts _ aligns := absurd stays aligns

/-- A gap that nobody fills is given up when its time has come. -/
theorem ordered_delivery_iff_sample :
    (system.confine Orderly).Run (startingAt 0) [⟨0, 0, 0⟩, ⟨0, 2, 2⟩, ⟨gapTimeout, 3, 3⟩]
      (pushAll (startingAt 0) [⟨0, 0, 0⟩, ⟨0, 2, 2⟩, (⟨gapTimeout, 3, 3⟩ : Push Nat)]) :=
  (ordered_delivery_iff ⟨0, rfl⟩).mpr <|
    System.Run.cons ⟨⟨by decide, rfl⟩, timed_of_since (by decide +kernel) (by decide +kernel)⟩ <|
    System.Run.cons ⟨⟨by decide, rfl⟩, timed_of_since (by decide +kernel) (by decide +kernel)⟩ <|
    System.Run.cons ⟨⟨by decide, rfl⟩, timed_of_since (by decide +kernel) (by decide +kernel)⟩ .nil

end WatchedInbox

end Byok
