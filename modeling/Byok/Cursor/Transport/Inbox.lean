/-
**The inbox of a transport.** `server/src/cursor/transport/inbox.rs`.

Appends carry a sequence number. `OrderedInbox` hands them on in order, holds back what comes too early,
and gives up a gap that nobody fills.

* `pushAt` — the function of the source.
* `Drained` — what a drain hands on and what it leaves.
* `Pushed`, `pushAt_pushed` — the four things that a push can do. No later proof unfolds `pushAt`.

Sequence numbers are `i64`, and instants count nanoseconds.
-/

import Mathlib.Order.Compare
import Mathlib.Tactic.Common

namespace Byok

def gapTimeout : Nat := 10000000000

def pendingLimit : Nat := 1024

/-- `i64::MAX`. -/
def i64Max : Int := 9223372036854775807

/-- `saturating_add(1)`. -/
def succSaturating (seqno : Int) : Int := min (seqno + 1) i64Max

structure OrderedInbox (α : Type) where
  next : Int
  pending : Std.TreeMap Int α
  gapSince : Option Nat

namespace OrderedInbox

variable {α : Type}

def startingAt (next : Int) : OrderedInbox α := ⟨next, ∅, none⟩

/-- The loop of `drain_contiguous`, which takes an entry out of the backlog each time: what it hands
on, and the cursor and the backlog when it stops. -/
def drainLoop : Nat → Int → Std.TreeMap Int α → List (Int × α) × Int × Std.TreeMap Int α
  | 0, next, pending => ([], next, pending)
  | entries + 1, next, pending =>
    match pending[next]? with
    | none => ([], next, pending)
    | some value =>
      let (ready, last, rest) := drainLoop entries (succSaturating next) (pending.erase next)
      ((next, value) :: ready, last, rest)

def drainContiguous (inbox : OrderedInbox α) : List (Int × α) × OrderedInbox α :=
  let (ready, next, pending) := drainLoop inbox.pending.size inbox.next inbox.pending
  (ready, ⟨next, pending, if pending.isEmpty then none else inbox.gapSince⟩)

def skipGap (inbox : OrderedInbox α) : List (Int × α) × OrderedInbox α :=
  match inbox.pending.keys.head? with
  | none => ([], { inbox with gapSince := none })
  | some oldest => drainContiguous { inbox with next := oldest, gapSince := none }

/-- A push that is too late, or a duplicate of a message that is held back. -/
def drops (inbox : OrderedInbox α) (seqno : Int) : Bool :=
  seqno < inbox.next || inbox.pending.contains seqno

/-- The cursor that a push goes by: the first append decides where the numbers start. -/
def aligned (inbox : OrderedInbox α) (seqno : Int) : Int :=
  if inbox.next = 0 ∧ inbox.pending.isEmpty ∧ 0 < seqno then seqno else inbox.next

def pushAt (inbox : OrderedInbox α) (now : Nat) (seqno : Int) (value : α) :
    List (Int × α) × OrderedInbox α :=
  if inbox.drops seqno then ([], inbox)
  else
    let filled : OrderedInbox α :=
      { inbox with next := inbox.aligned seqno, pending := inbox.pending.insert seqno value }
    let (ready, inbox) := filled.drainContiguous
    if !ready.isEmpty then (ready, inbox)
    else
      let since := inbox.gapSince.getD now
      let inbox := { inbox with gapSince := some since }
      if pendingLimit < inbox.pending.size then inbox.skipGap
      else if now - since < gapTimeout then ([], inbox)
      else inbox.skipGap

/-! ### Draining -/

theorem mem_of_found {pending : Std.TreeMap Int α} {seqno : Int} {value : α}
    (found : pending[seqno]? = some value) : seqno ∈ pending := by
  rw [Std.TreeMap.mem_iff_isSome_getElem?, found, Option.isSome_some]

theorem found_erase (pending : Std.TreeMap Int α) (next seqno : Int) :
    (pending.erase next)[seqno]? = if next = seqno then none else pending[seqno]? := by
  rw [Std.TreeMap.getElem?_erase]
  simp only [Std.compare_eq_iff_eq]

theorem found_insert (pending : Std.TreeMap Int α) (pushed seqno : Int) (value : α) :
    (pending.insert pushed value)[seqno]? =
      if pushed = seqno then some value else pending[seqno]? := by
  rw [Std.TreeMap.getElem?_insert]
  simp only [Std.compare_eq_iff_eq]

/-- What a drain from `next` to `last` hands on and leaves. -/
structure Drained (next last : Int) (pending rest : Std.TreeMap Int α) (ready : List (Int × α)) :
    Prop where
  le : next ≤ last
  full : ∀ seqno, next ≤ seqno → seqno < last → seqno ∈ pending
  hands : ∀ seqno value, (seqno, value) ∈ ready ↔
    next ≤ seqno ∧ seqno < last ∧ pending[seqno]? = some value
  sorted : ready.Pairwise fun first second => first.1 < second.1
  leaves : ∀ seqno : Int, rest[seqno]? =
    if next ≤ seqno ∧ seqno < last then none else pending[seqno]?
  size : rest.size + ready.length = pending.size

theorem drained_nil (next : Int) (pending : Std.TreeMap Int α) :
    Drained next next pending pending [] where
  le := Int.le_refl _
  full seqno low high := by omega
  hands seqno value := by
    constructor
    · intro member
      cases member
    · intro inside
      omega
  sorted := .nil
  leaves seqno := by
    rw [if_neg (by omega)]
  size := by simp

theorem drained_cons {next last : Int} {pending rest : Std.TreeMap Int α} {ready : List (Int × α)}
    {value : α} (here : pending[next]? = some value)
    (more : Drained (next + 1) last (pending.erase next) rest ready) :
    Drained next last pending rest ((next, value) :: ready) where
  le := by
    have := more.le
    omega
  full seqno low high := by
    by_cases same : seqno = next
    · rw [same]
      exact mem_of_found here
    · exact Std.TreeMap.mem_of_mem_erase (more.full seqno (by omega) high)
  hands seqno found := by
    have le := more.le
    rw [List.mem_cons, more.hands, found_erase]
    by_cases same : next = seqno
    · subst same
      simp [here, eq_comm]
      omega
    · have apart : seqno ≠ next := fun equal => same equal.symm
      simp [same, apart]
      omega
  sorted := by
    refine List.pairwise_cons.mpr ⟨fun entry member => ?_, more.sorted⟩
    have := ((more.hands entry.1 entry.2).mp member).1
    show next < entry.1
    omega
  leaves seqno := by
    have le := more.le
    rw [more.leaves, found_erase]
    by_cases same : next = seqno
    · subst same
      simp
      omega
    · by_cases inside : next + 1 ≤ seqno ∧ seqno < last
      · rw [if_pos inside, if_pos (by omega)]
      · rw [if_neg inside, if_neg same, if_neg (by omega)]
  size := by
    have held : pending.contains next = true :=
      mem_of_found here
    have size := more.size
    rw [Std.TreeMap.size_erase, if_pos held] at size
    have : 0 < pending.size := by
      refine Nat.pos_of_ne_zero fun none => ?_
      have empty : pending.isEmpty = true := by
        rw [Std.TreeMap.isEmpty_eq_size_eq_zero, none]
        rfl
      rw [Std.TreeMap.contains_of_isEmpty empty] at held
      cases held
    rw [List.length_cons]
    omega

theorem drainLoop_drained (entries : Nat) (next : Int) (pending : Std.TreeMap Int α)
    (small : ∀ seqno ∈ pending, seqno < i64Max) :
    Drained next (drainLoop entries next pending).2.1 pending (drainLoop entries next pending).2.2
      (drainLoop entries next pending).1 := by
  induction entries generalizing next pending with
  | zero => exact drained_nil next pending
  | succ entries ih =>
    unfold drainLoop
    cases here : pending[next]? with
    | none => exact drained_nil next pending
    | some value =>
      have held := small next (mem_of_found here)
      have succ : succSaturating next = next + 1 := by
        unfold succSaturating
        omega
      simp only
      rw [succ]
      exact drained_cons here (ih (next + 1) (pending.erase next) fun seqno member =>
        small seqno (Std.TreeMap.mem_of_mem_erase member))

theorem drainLoop_stops (entries : Nat) (next : Int) (pending : Std.TreeMap Int α)
    (enough : pending.size ≤ entries) :
    (drainLoop entries next pending).2.2[(drainLoop entries next pending).2.1]? = none := by
  induction entries generalizing next pending with
  | zero =>
    have empty : pending.isEmpty = true := by
      rw [Std.TreeMap.isEmpty_eq_size_eq_zero]
      simpa using enough
    show pending[next]? = none
    exact Std.TreeMap.getElem?_of_isEmpty empty
  | succ entries ih =>
    unfold drainLoop
    cases here : pending[next]? with
    | none => exact here
    | some value =>
      have held : pending.contains next = true := mem_of_found here
      refine ih _ _ ?_
      rw [Std.TreeMap.size_erase, if_pos held]
      omega

/-- An inbox that waits: its backlog is beyond a gap, and small. -/
structure Settled (inbox : OrderedInbox α) : Prop where
  ahead : ∀ seqno ∈ inbox.pending, inbox.next < seqno ∧ seqno < i64Max
  few : inbox.pending.size ≤ pendingLimit
  timed : inbox.gapSince ≠ none → inbox.pending.isEmpty = false

theorem startingAt_settled (next : Int) : (startingAt next : OrderedInbox α).Settled where
  ahead seqno member := by simp [startingAt] at member
  few := Nat.zero_le _
  timed since := absurd rfl since

/-- What `drain_contiguous` does to an inbox with a small enough backlog, none of it behind the cursor. -/
theorem drainContiguous_spec (inbox : OrderedInbox α)
    (ahead : ∀ seqno ∈ inbox.pending, inbox.next ≤ seqno ∧ seqno < i64Max) :
    Drained inbox.next inbox.drainContiguous.2.next inbox.pending inbox.drainContiguous.2.pending
      inbox.drainContiguous.1 ∧
    (∀ seqno ∈ inbox.drainContiguous.2.pending,
      inbox.drainContiguous.2.next < seqno ∧ seqno < i64Max) ∧
    inbox.drainContiguous.2.gapSince =
      if inbox.drainContiguous.2.pending.isEmpty then none else inbox.gapSince := by
  have drained := drainLoop_drained inbox.pending.size inbox.next inbox.pending
    fun seqno member => (ahead seqno member).2
  have stops := drainLoop_stops inbox.pending.size inbox.next inbox.pending (Nat.le_refl _)
  refine ⟨drained, fun seqno member => ?_, rfl⟩
  rw [Std.TreeMap.mem_iff_isSome_getElem?] at member
  have leaves := drained.leaves seqno
  change (drainLoop _ _ _).2.2[seqno]?.isSome at member
  show (drainLoop _ _ _).2.1 < seqno ∧ seqno < i64Max
  rw [leaves] at member
  by_cases inside : inbox.next ≤ seqno ∧ seqno < (drainLoop inbox.pending.size inbox.next inbox.pending).2.1
  · rw [if_pos inside] at member
    cases member
  · rw [if_neg inside] at member leaves
    have range := ahead seqno (Std.TreeMap.mem_iff_isSome_getElem?.mpr member)
    have apart : seqno ≠ (drainLoop inbox.pending.size inbox.next inbox.pending).2.1 := by
      intro same
      rw [← leaves, same, stops] at member
      cases member
    omega

theorem drainContiguous_stuck (inbox : OrderedInbox α) (gap : inbox.pending[inbox.next]? = none) :
    inbox.drainContiguous =
      ([], { inbox with gapSince := if inbox.pending.isEmpty then none else inbox.gapSince }) := by
  have loop : drainLoop inbox.pending.size inbox.next inbox.pending =
      ([], inbox.next, inbox.pending) := by
    cases inbox.pending.size with
    | zero => rfl
    | succ entries =>
      unfold drainLoop
      rw [gap]
  unfold drainContiguous
  rw [loop]

/-! ### Pushing -/

/-- All that `push_at` can do. -/
inductive Pushed (inbox : OrderedInbox α) (now : Nat) (seqno : Int) (value : α) :
    List (Int × α) → OrderedInbox α → Prop
  | drops (late : inbox.drops seqno = true) : Pushed inbox now seqno value [] inbox
  | delivers {ready : List (Int × α)} {after : OrderedInbox α} (fresh : inbox.drops seqno = false)
      (expected : inbox.aligned seqno = seqno)
      (drained : Drained seqno after.next (inbox.pending.insert seqno value) after.pending ready)
      (settled : after.Settled) : Pushed inbox now seqno value ready after
  | waits (fresh : inbox.drops seqno = false) (stays : inbox.aligned seqno = inbox.next)
      (gap : inbox.next < seqno) (few : inbox.pending.size < pendingLimit)
      (young : now < inbox.gapSince.getD now + gapTimeout) :
      Pushed inbox now seqno value []
        ⟨inbox.next, inbox.pending.insert seqno value, some (inbox.gapSince.getD now)⟩
  | skips {oldest : Int} {ready : List (Int × α)} {after : OrderedInbox α}
      (fresh : inbox.drops seqno = false) (stays : inbox.aligned seqno = inbox.next)
      (gap : inbox.next < seqno)
      (reason : pendingLimit ≤ inbox.pending.size ∨ inbox.gapSince.getD now + gapTimeout ≤ now)
      (least : inbox.next < oldest ∧ ∀ seqno' ∈ inbox.pending.insert seqno value, oldest ≤ seqno')
      (drained : Drained oldest after.next (inbox.pending.insert seqno value) after.pending ready)
      (settled : after.Settled) : Pushed inbox now seqno value ready after

theorem fresh_iff (inbox : OrderedInbox α) (seqno : Int) :
    inbox.drops seqno = false ↔ inbox.next ≤ seqno ∧ seqno ∉ inbox.pending := by
  unfold drops
  rw [Bool.or_eq_false_iff, decide_eq_false_iff_not, Int.not_lt,
    Std.TreeMap.mem_iff_contains, Bool.not_eq_true]

theorem aligned_cases (inbox : OrderedInbox α) (seqno : Int) :
    inbox.aligned seqno = seqno ∧ inbox.next = 0 ∧ inbox.pending.isEmpty ∧ 0 < seqno ∨
      inbox.aligned seqno = inbox.next := by
  unfold aligned
  by_cases first : inbox.next = 0 ∧ inbox.pending.isEmpty ∧ 0 < seqno
  · rw [if_pos first]
    exact .inl ⟨rfl, first⟩
  · rw [if_neg first]
    exact .inr rfl

section Push

variable {inbox : OrderedInbox α} {seqno : Int}

theorem insert_ahead (settled : inbox.Settled) (fresh : inbox.drops seqno = false)
    (small : seqno < i64Max) (value : α) :
    ∀ other ∈ inbox.pending.insert seqno value, inbox.aligned seqno ≤ other ∧ other < i64Max := by
  obtain ⟨low, -⟩ := (fresh_iff inbox seqno).mp fresh
  intro other member
  rw [Std.TreeMap.mem_insert, Std.compare_eq_iff_eq] at member
  rcases aligned_cases inbox seqno with ⟨first, -, empty, -⟩ | stays
  · rcases member with rfl | held
    · exact ⟨Int.le_of_eq first, small⟩
    · exact absurd held (Std.TreeMap.not_mem_of_isEmpty empty)
  · rw [stays]
    rcases member with rfl | held
    · exact ⟨low, small⟩
    · have := settled.ahead other held
      omega

theorem insert_beyond (settled : inbox.Settled) (gap : inbox.next < seqno) (small : seqno < i64Max)
    (value : α) : ∀ other ∈ inbox.pending.insert seqno value, inbox.next < other ∧ other < i64Max := by
  intro other member
  rw [Std.TreeMap.mem_insert, Std.compare_eq_iff_eq] at member
  rcases member with rfl | held
  · exact ⟨gap, small⟩
  · exact settled.ahead other held

theorem insert_size (fresh : inbox.drops seqno = false) (value : α) :
    (inbox.pending.insert seqno value).size = inbox.pending.size + 1 := by
  have absent := ((fresh_iff inbox seqno).mp fresh).2
  rw [Std.TreeMap.mem_iff_contains] at absent
  rw [Std.TreeMap.size_insert, if_neg absent]

theorem drained_settled {next : Int} {pending : Std.TreeMap Int α} (since : Option Nat) {value : α}
    (here : pending[next]? = some value) (few : pending.size ≤ pendingLimit + 1)
    (ahead : ∀ seqno ∈ pending, next ≤ seqno ∧ seqno < i64Max) :
    Drained next (drainContiguous ⟨next, pending, since⟩).2.next pending
      (drainContiguous ⟨next, pending, since⟩).2.pending (drainContiguous ⟨next, pending, since⟩).1 ∧
    (drainContiguous ⟨next, pending, since⟩).2.Settled ∧
    (drainContiguous ⟨next, pending, since⟩).1.isEmpty = false := by
  obtain ⟨drained, left, timer⟩ := drainContiguous_spec ⟨next, pending, since⟩ ahead
  generalize drainContiguous ⟨next, pending, since⟩ = result at drained left timer
  have moves : next < result.2.next := by
    have le := drained.le
    refine Int.lt_iff_le_and_ne.mpr ⟨le, fun same => ?_⟩
    have stays : result.2.pending[next]? = some value := by
      rw [drained.leaves, if_neg (by omega), here]
    have beyond := (left next (mem_of_found stays)).1
    omega
  have handed : (next, value) ∈ result.1 :=
    (drained.hands next value).mpr ⟨Int.le_refl _, moves, here⟩
  have some : 0 < result.1.length := List.length_pos_of_mem handed
  refine ⟨drained, ⟨left, ?_, ?_⟩, ?_⟩
  · have size : result.2.pending.size + result.1.length = pending.size := drained.size
    omega
  · intro since
    rw [timer] at since
    by_cases empty : result.2.pending.isEmpty = true
    · rw [if_pos empty] at since
      exact absurd rfl since
    · exact Bool.eq_false_iff.mpr empty
  · exact Bool.eq_false_iff.mpr fun empty => by
      rw [List.isEmpty_iff.mp empty] at handed
      cases handed

theorem skipGap_spec {next : Int} {pending : Std.TreeMap Int α} (since : Option Nat) {value : α}
    (held : pending[seqno]? = some value) (few : pending.size ≤ pendingLimit + 1)
    (ahead : ∀ seqno ∈ pending, next < seqno ∧ seqno < i64Max) :
    ∃ oldest, (next < oldest ∧ ∀ seqno ∈ pending, oldest ≤ seqno) ∧
      Drained oldest (skipGap ⟨next, pending, since⟩).2.next pending
        (skipGap ⟨next, pending, since⟩).2.pending (skipGap ⟨next, pending, since⟩).1 ∧
      (skipGap ⟨next, pending, since⟩).2.Settled := by
  have least := Std.TreeMap.isSome_minKey?_of_mem (mem_of_found held)
  obtain ⟨oldest, least⟩ := Option.isSome_iff_exists.mp least
  have skips : skipGap ⟨next, pending, since⟩ = drainContiguous ⟨oldest, pending, none⟩ := by
    unfold skipGap
    rw [← Std.TreeMap.minKey?_eq_head?_keys, least]
  obtain ⟨member, minimal⟩ := Std.TreeMap.minKey?_eq_some_iff_mem_and_forall.mp least
  have minimal : ∀ seqno ∈ pending, oldest ≤ seqno := fun seqno member =>
    Int.isLE_compare.mp (minimal seqno member)
  obtain ⟨first, here⟩ := Option.isSome_iff_exists.mp (Std.TreeMap.mem_iff_isSome_getElem?.mp member)
  obtain ⟨drained, settled, -⟩ := drained_settled none here few
    fun seqno member => ⟨minimal seqno member, (ahead seqno member).2⟩
  rw [skips]
  exact ⟨oldest, ⟨(ahead oldest member).1, minimal⟩, drained, settled⟩

theorem pushAt_gap {now : Nat} {value : α} (fresh : inbox.drops seqno = false)
    (stays : inbox.aligned seqno = inbox.next)
    (gap : (inbox.pending.insert seqno value)[inbox.next]? = none) :
    inbox.pushAt now seqno value =
      let since := inbox.gapSince.getD now
      let filled : OrderedInbox α := ⟨inbox.next, inbox.pending.insert seqno value, some since⟩
      if pendingLimit < filled.pending.size then filled.skipGap
      else if now - since < gapTimeout then ([], filled)
      else filled.skipGap := by
  have some : (inbox.pending.insert seqno value).isEmpty = false := Std.TreeMap.isEmpty_insert
  unfold pushAt
  rw [if_neg (by rw [fresh]; exact Bool.false_ne_true), stays]
  simp only
  rw [drainContiguous_stuck _ gap]
  simp only [some, List.isEmpty_nil, Bool.not_true, Bool.false_eq_true, if_false]

theorem pushAt_pushed (settled : inbox.Settled) (now : Nat) (small : seqno < i64Max) (value : α) :
    Pushed inbox now seqno value (inbox.pushAt now seqno value).1 (inbox.pushAt now seqno value).2 := by
  cases fresh : inbox.drops seqno with
  | true =>
    have ignored : inbox.pushAt now seqno value = ([], inbox) := by
      unfold pushAt
      rw [if_pos fresh]
    rw [ignored]
    exact .drops fresh
  | false =>
    have ahead := insert_ahead settled fresh small value
    have size := insert_size fresh value
    have few := settled.few
    have here : (inbox.pending.insert seqno value)[seqno]? = some value := by
      rw [found_insert, if_pos rfl]
    by_cases expected : inbox.aligned seqno = seqno
    · -- The message at the cursor: it is handed on at once.
      rw [expected] at ahead
      obtain ⟨drained, after, some⟩ := drained_settled inbox.gapSince here (by omega) ahead
      have hands : inbox.pushAt now seqno value =
          drainContiguous ⟨seqno, inbox.pending.insert seqno value, inbox.gapSince⟩ := by
        unfold pushAt
        rw [if_neg (by rw [fresh]; exact Bool.false_ne_true), expected]
        simp only [some]
        rfl
      rw [hands]
      exact .delivers fresh expected drained after
    · have stays : inbox.aligned seqno = inbox.next :=
        (aligned_cases inbox seqno).resolve_left fun first => expected first.1
      have gap : inbox.next < seqno := by
        have low := ((fresh_iff inbox seqno).mp fresh).1
        omega
      have beyond := insert_beyond settled gap small value
      have absent : (inbox.pending.insert seqno value)[inbox.next]? = none := by
        refine Option.eq_none_iff_forall_not_mem.mpr fun found held => ?_
        have := (beyond inbox.next (mem_of_found held)).1
        omega
      obtain ⟨oldest, least, drained, after⟩ :=
        skipGap_spec (some (inbox.gapSince.getD now)) here (by omega) beyond
      rw [pushAt_gap fresh stays absent]
      simp only
      by_cases full : pendingLimit < (inbox.pending.insert seqno value).size
      · rw [if_pos full]
        exact .skips fresh stays gap (.inl (by omega)) least drained after
      · rw [if_neg full]
        unfold gapTimeout at *
        by_cases young : now - inbox.gapSince.getD now < 10000000000
        · rw [if_pos young]
          exact .waits fresh stays gap (by omega) (by unfold gapTimeout; omega)
        · rw [if_neg young]
          exact .skips fresh stays gap (.inr (by unfold gapTimeout; omega)) least drained after

/-- What a push that is taken in does to the cursor and the backlog, gap or not: everything before the
new cursor is handed on, and the rest waits. -/
structure Moves (inbox : OrderedInbox α) (seqno : Int) (value : α) (ready : List (Int × α))
    (after : OrderedInbox α) : Prop where
  le : inbox.next ≤ after.next
  hands : ∀ other found, (other, found) ∈ ready ↔
    other < after.next ∧ (inbox.pending.insert seqno value)[other]? = some found
  sorted : ready.Pairwise fun first second => first.1 < second.1
  leaves : ∀ other : Int, after.pending[other]? =
    if other < after.next then none else (inbox.pending.insert seqno value)[other]?
  settled : after.Settled

theorem Drained.moves {first : Int} {value : α} {ready : List (Int × α)} {after : OrderedInbox α}
    (drained : Drained first after.next (inbox.pending.insert seqno value) after.pending ready)
    (least : ∀ other ∈ inbox.pending.insert seqno value, first ≤ other) (le : inbox.next ≤ first)
    (settled : after.Settled) : Moves inbox seqno value ready after where
  le := Int.le_trans le drained.le
  hands other found := by
    rw [drained.hands]
    constructor
    · rintro ⟨-, high, here⟩
      exact ⟨high, here⟩
    · rintro ⟨high, here⟩
      exact ⟨least other (mem_of_found here), high, here⟩
  sorted := drained.sorted
  leaves other := by
    rw [drained.leaves]
    by_cases high : other < after.next
    · rw [if_pos high]
      by_cases low : first ≤ other
      · rw [if_pos ⟨low, high⟩]
      · rw [if_neg (by omega)]
        refine Option.eq_none_iff_forall_not_mem.mpr fun found held => ?_
        exact low (least other (mem_of_found held))
    · rw [if_neg high, if_neg (by omega)]
  settled := settled

theorem Pushed.moves {now : Nat} {value : α} {ready : List (Int × α)} {after : OrderedInbox α}
    (pushed : Pushed inbox now seqno value ready after) (settled : inbox.Settled)
    (fresh : inbox.drops seqno = false) (small : seqno < i64Max) :
    Moves inbox seqno value ready after := by
  have ahead := insert_ahead settled fresh small value
  have low := ((fresh_iff inbox seqno).mp fresh).1
  cases pushed with
  | drops late =>
    rw [fresh] at late
    cases late
  | delivers _ expected drained after =>
    rw [expected] at ahead
    exact drained.moves (fun other member => (ahead other member).1) low after
  | skips _ _ _ _ least drained after =>
    exact drained.moves least.2 (Int.le_of_lt least.1) after
  | waits _ stays gap few _ =>
    have beyond := insert_beyond settled gap small value
    refine (drained_nil inbox.next _).moves (fun other member => ?_) (Int.le_refl _) ⟨beyond, ?_, ?_⟩
    · exact Int.le_of_lt (beyond other member).1
    · show (inbox.pending.insert seqno value).size ≤ pendingLimit
      rw [insert_size fresh value]
      omega
    · intro _
      exact Std.TreeMap.isEmpty_insert

end Push

/-! ### What is held back -/

/-- All messages that are held back have a property. -/
def HoldsAll (holds : α → Prop) (pending : Std.TreeMap Int α) : Prop :=
  ∀ (seqno : Int) (value : α), pending[seqno]? = some value → holds value

section Held

variable {holds : α → Prop}

theorem drainLoop_all (entries : Nat) (next : Int) {pending : Std.TreeMap Int α}
    (all : HoldsAll holds pending) :
    (∀ entry ∈ (drainLoop entries next pending).1, holds entry.2) ∧
      HoldsAll holds (drainLoop entries next pending).2.2 := by
  induction entries generalizing next pending with
  | zero => exact ⟨nofun, all⟩
  | succ entries ih =>
    unfold drainLoop
    cases found : pending[next]? with
    | none => exact ⟨nofun, all⟩
    | some value =>
      have rest : HoldsAll holds (pending.erase next) := by
        intro seqno other there
        rw [found_erase] at there
        split at there
        · cases there
        · exact all seqno other there
      obtain ⟨ready, kept⟩ := ih (succSaturating next) rest
      refine ⟨fun entry member => ?_, kept⟩
      rcases List.mem_cons.mp member with rfl | later
      · exact all next value found
      · exact ready entry later

theorem skipGap_all {inbox : OrderedInbox α} (all : HoldsAll holds inbox.pending) :
    (∀ entry ∈ inbox.skipGap.1, holds entry.2) ∧ HoldsAll holds inbox.skipGap.2.pending := by
  unfold skipGap
  split
  · exact ⟨nofun, all⟩
  · exact drainLoop_all _ _ all

theorem pushAt_all {inbox : OrderedInbox α} {now : Nat} {seqno : Int} {value : α}
    (all : HoldsAll holds inbox.pending) (pushed : holds value) :
    (∀ entry ∈ (inbox.pushAt now seqno value).1, holds entry.2) ∧
      HoldsAll holds (inbox.pushAt now seqno value).2.pending := by
  have filled : HoldsAll holds (inbox.pending.insert seqno value) := by
    intro other found there
    rw [found_insert] at there
    split at there
    · exact Option.some.inj there ▸ pushed
    · exact all other found there
  have drained := drainLoop_all (inbox.pending.insert seqno value).size (inbox.aligned seqno) filled
  unfold pushAt
  split
  · exact ⟨nofun, all⟩
  · dsimp only
    split
    · exact drained
    · split
      · exact skipGap_all drained.2
      · split
        · exact ⟨nofun, drained.2⟩
        · exact skipGap_all drained.2

end Held

end OrderedInbox

end Byok
