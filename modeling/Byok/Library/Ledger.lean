/-
**A ledger of what was done lately.**

A ledger remembers when each key was last entered. A key whose entry is younger than a time to live is refused; when the
ledger grows it is pruned of the old entries, and a ledger that is still too large is cleared.

* `Remembers`, `Remembers.enter` — what a ledger has of the history of its entries, whatever the order of the checks.
* `Remembers.apart` — two entries of one key are a time to live apart, when the ledger was not cleared in between.

A check reads the clock before it is its turn: `now` is what it read, `checked` when it is its turn.
-/

import Byok.Library.Gather

namespace Byok.Library

variable {κ α : Type} [DecidableEq κ]

/-! ### Entries that stay -/

/-- The entries whose values stay. -/
def retain (stays : α → Bool) (table : Table κ α) : Table κ α :=
  ⟨table.entries.filter fun entry => stays entry.2, table.nodupKeys.sublist List.filter_sublist⟩

theorem lookup_retain {stays : α → Bool} {table : Table κ α} {key : κ} {value : α} :
    (retain stays table).lookup key = some value ↔ table.lookup key = some value ∧ stays value = true := by
  rw [← Option.mem_def, ← Option.mem_def, AList.mem_lookup_iff, AList.mem_lookup_iff]
  exact List.mem_filter

/-! ### The ledger -/

/-- How long an entry counts, from which length on a ledger is pruned, and from which it is cleared. -/
structure LedgerLimits where
  ttl : Nat
  pruneAt : Nat
  limit : Nat

/-- When each key was last entered. -/
abbrev Ledger (κ : Type) := Table κ Nat

namespace Ledger

/-- A ledger with room for another entry, and whether it was cleared for that. -/
def room (limits : LedgerLimits) (now : Nat) (ledger : Ledger κ) : Bool × Ledger κ :=
  if limits.pruneAt ≤ ledger.entries.length then
    let pruned := retain (fun entered => now - entered < limits.ttl) ledger
    if limits.limit ≤ pruned.entries.length then (true, ∅) else (false, pruned)
  else (false, ledger)

/-- Whether a key is refused; one that is not is entered. -/
def enter (limits : LedgerLimits) (now : Nat) (ledger : Ledger κ) (key : κ) : Bool × Ledger κ :=
  let kept := (ledger.room limits now).2
  match kept.lookup key with
  | some entered => if now - entered < limits.ttl then (true, kept) else (false, kept.insert key now)
  | none => (false, kept.insert key now)

variable {limits : LedgerLimits} {now : Nat} {ledger : Ledger κ} {key : κ}

omit [DecidableEq κ] in
theorem room_cases (limits : LedgerLimits) (now : Nat) (ledger : Ledger κ) :
    ledger.room limits now = (true, ∅) ∨
    ledger.room limits now = (false, retain (fun entered => now - entered < limits.ttl) ledger) ∨
    ledger.room limits now = (false, ledger) := by
  unfold room
  by_cases long : limits.pruneAt ≤ ledger.entries.length
  · rw [if_pos long]
    by_cases large : limits.limit ≤ (retain (fun entered => now - entered < limits.ttl) ledger).entries.length
    · exact .inl (if_pos large)
    · exact .inr (.inl (if_neg large))
  · exact .inr (.inr (if_neg long))

theorem lookup_of_room {entered : Nat} (found : (ledger.room limits now).2.lookup key = some entered) :
    ledger.lookup key = some entered := by
  rcases room_cases limits now ledger with is | is | is <;> rw [is] at found
  · rw [AList.lookup_empty] at found
    cases found
  · exact (lookup_retain.mp found).1
  · exact found

theorem room_keeps {entered : Nat} (found : ledger.lookup key = some entered) (young : now - entered < limits.ttl)
    (kept : (ledger.room limits now).1 = false) : (ledger.room limits now).2.lookup key = some entered := by
  rcases room_cases limits now ledger with is | is | is <;> rw [is] at kept ⊢
  · cases kept
  · exact lookup_retain.mpr ⟨found, decide_eq_true young⟩
  · exact found

theorem enter_cases (limits : LedgerLimits) (now : Nat) (ledger : Ledger κ) (key : κ) :
    (∃ entered, (ledger.room limits now).2.lookup key = some entered ∧ now - entered < limits.ttl ∧
      ledger.enter limits now key = (true, (ledger.room limits now).2)) ∨
    (∀ entered, (ledger.room limits now).2.lookup key = some entered → limits.ttl ≤ now - entered) ∧
      ledger.enter limits now key = (false, (ledger.room limits now).2.insert key now) := by
  cases found : (ledger.room limits now).2.lookup key with
  | none =>
    refine .inr ⟨fun _ none => (by cases none), ?_⟩
    simp only [enter, found]
  | some entered =>
    by_cases young : now - entered < limits.ttl
    · refine .inl ⟨entered, rfl, young, ?_⟩
      simp only [enter, found, if_pos young]
    · refine .inr ⟨fun other same => ?_, ?_⟩
      · obtain rfl := Option.some.inj same
        exact Nat.le_of_not_lt young
      · simp only [enter, found, if_neg young]

end Ledger

/-! ### What a ledger has of its history -/

/-- An entry: its key, the time that the check had read, when it was its turn, and how often the ledger had been cleared
by then. -/
structure Entry (κ : Type) where
  key : κ
  now : Nat
  checked : Nat
  clears : Nat
deriving DecidableEq, Repr

/-- What the ledger has of the entries so far. -/
structure Remembers (limits : LedgerLimits) (log : List (Entry κ)) (ledger : Ledger κ) (clears clock : Nat) : Prop where
  entered : ∀ key now, ledger.lookup key = some now → ∃ entry ∈ log, entry.key = key ∧ entry.now = now
  recent : ∀ entry ∈ log, entry.clears = clears →
    ledger.lookup entry.key = some entry.now ∨ entry.now + limits.ttl ≤ clock
  past : ∀ entry ∈ log, entry.clears ≤ clears
  apart : log.Pairwise fun first second =>
    first.key = second.key → first.clears = second.clears → first.now + limits.ttl ≤ second.checked

namespace Remembers

variable {limits : LedgerLimits} {log : List (Entry κ)} {ledger : Ledger κ} {clears clock now : Nat} {key : κ}

theorem empty (limits : LedgerLimits) (clock : Nat) : Remembers limits ([] : List (Entry κ)) ∅ 0 clock where
  entered _ _ found := by
    rw [AList.lookup_empty] at found
    cases found
  recent _ listed := by cases listed
  past _ listed := by cases listed
  apart := .nil

theorem wait (remembers : Remembers limits log ledger clears clock) {later : Nat} (le : clock ≤ later) :
    Remembers limits log ledger clears later where
  entered := remembers.entered
  recent entry listed same := (remembers.recent entry listed same).imp_right fun old => Nat.le_trans old le
  past := remembers.past
  apart := remembers.apart

theorem room (remembers : Remembers limits log ledger clears clock) (past : now ≤ clock) (live : 0 < limits.ttl) :
    Remembers limits log (ledger.room limits now).2 (clears + (ledger.room limits now).1.toNat) clock where
  entered key entered found := remembers.entered key entered (Ledger.lookup_of_room found)
  recent entry listed same := by
    cases cleared : (ledger.room limits now).1 with
    | true =>
      have before := remembers.past entry listed
      rw [cleared, Bool.toNat_true] at same
      omega
    | false =>
      rw [cleared, Bool.toNat_false, Nat.add_zero] at same
      rcases remembers.recent entry listed same with found | old
      · by_cases young : now - entry.now < limits.ttl
        · exact .inl (Ledger.room_keeps found young cleared)
        · exact .inr (by omega)
      · exact .inr old
  past entry listed := Nat.le_trans (remembers.past entry listed) (Nat.le_add_right _ _)
  apart := remembers.apart

theorem insert (remembers : Remembers limits log ledger clears clock) (past : now ≤ clock)
    (old : ∀ entered, ledger.lookup key = some entered → limits.ttl ≤ now - entered) (live : 0 < limits.ttl) :
    Remembers limits (log ++ [⟨key, now, clock, clears⟩]) (ledger.insert key now) clears clock where
  entered other at_ found := by
    by_cases same : other = key
    · subst same
      rw [AList.lookup_insert] at found
      exact ⟨_, List.mem_append_right _ (List.mem_singleton_self _), rfl, Option.some.inj found⟩
    · rw [AList.lookup_insert_ne same] at found
      obtain ⟨entry, listed, is⟩ := remembers.entered other at_ found
      exact ⟨entry, List.mem_append_left _ listed, is⟩
  recent entry listed same := by
    rcases List.mem_append.mp listed with before | last
    · by_cases again : entry.key = key
      · rcases remembers.recent entry before same with found | earlier
        · rw [again] at found
          have apart := old entry.now found
          exact .inr (by omega)
        · exact .inr earlier
      · rw [AList.lookup_insert_ne again]
        exact remembers.recent entry before same
    · obtain rfl := List.mem_singleton.mp last
      exact .inl (AList.lookup_insert _)
  past entry listed := by
    rcases List.mem_append.mp listed with before | last
    · exact remembers.past entry before
    · obtain rfl := List.mem_singleton.mp last
      exact Nat.le_refl _
  apart := by
    refine List.pairwise_append.mpr ⟨remembers.apart, List.pairwise_singleton _ _, fun entry before last is same since => ?_⟩
    obtain rfl := List.mem_singleton.mp is
    rcases remembers.recent entry before since with found | earlier
    · rw [show entry.key = key from same] at found
      have apart := old entry.now found
      show entry.now + limits.ttl ≤ clock
      omega
    · exact earlier

/-- **A key is refused when it has a young entry, and entered when it has none.** -/
theorem enter (remembers : Remembers limits log ledger clears clock) (past : now ≤ clock) (live : 0 < limits.ttl) (key : κ) :
    Remembers limits
      (if (ledger.enter limits now key).1 then log
        else log ++ [⟨key, now, clock, clears + (ledger.room limits now).1.toNat⟩])
      (ledger.enter limits now key).2 (clears + (ledger.room limits now).1.toNat) clock ∧
    ((ledger.enter limits now key).1 = true → ∃ entry ∈ log, entry.key = key ∧ now - entry.now < limits.ttl) := by
  have roomy := remembers.room past live
  rcases Ledger.enter_cases limits now ledger key with ⟨entered, found, young, is⟩ | ⟨old, is⟩
  · rw [is]
    obtain ⟨entry, listed, same, rfl⟩ := roomy.entered key entered found
    exact ⟨roomy, fun _ => ⟨entry, listed, same, young⟩⟩
  · rw [is]
    exact ⟨roomy.insert past old live, nofun⟩

end Remembers

end Byok.Library
