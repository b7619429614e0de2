/-
**Streams of blocks.**

A block is opened, has parts, and is closed. Two automata read the marks of a stream: `toggle`, for
blocks that follow each other (`toggle_iff`), and `Phase.advance`, for a single one (`phase_iff`). A
machine that reads many kinds of marks at once is the product of such automata: `Observes` says that its
steps move one of them, and `observes_foldlM` that its runs do.
-/

import Byok.Library.Fallible

namespace Byok.Library

open List

/-- The marks of a block. -/
inductive Mark where
  | opens
  | part
  | closes
deriving DecidableEq, Repr

/-- The marks of a block from beginning to end. -/
def Mark.block (parts : Nat) : List Mark :=
  .opens :: (List.replicate parts .part ++ [.closes])

/-- The marks of a block that is not closed. -/
def Mark.unclosed (parts : Nat) : List Mark :=
  .opens :: List.replicate parts .part

/-- Blocks that follow each other. -/
inductive Blocks : List Mark → Prop
  | none : Blocks []
  | more {marks : List Mark} (parts : Nat) (rest : Blocks marks) : Blocks (Mark.block parts ++ marks)

/-! ### Blocks after each other -/

/-- Whether a block is open after a mark. -/
def toggle : Bool → Mark → Option Bool
  | false, .opens => some true
  | true, .part => some true
  | true, .closes => some false
  | _, _ => none

theorem toggle_opens {running : Bool} : (toggle running .opens).isSome ↔ running = false := by
  cases running <;> simp [toggle]

theorem toggle_inside {running : Bool} {mark : Mark} (inside : mark ≠ .opens) :
    (toggle running mark).isSome ↔ running = true := by
  cases running <;> cases mark <;> simp [toggle] at inside ⊢

theorem toggle_replicate (parts : Nat) :
    (List.replicate parts Mark.part).foldlM toggle true = some true := by
  induction parts with
  | zero => rfl
  | succ parts ih => exact ih

theorem toggle_block (parts : Nat) (marks : List Mark) :
    (Mark.block parts ++ marks).foldlM toggle false = marks.foldlM toggle false := by
  show (List.replicate parts Mark.part ++ [Mark.closes] ++ marks).foldlM toggle true =
    marks.foldlM toggle false
  rw [append_assoc, foldlM_append, toggle_replicate]
  rfl

theorem blocks_of_toggle {open' : Bool} {marks : List Mark}
    (accepted : marks.foldlM toggle open' = some false) :
    if open' then ∃ parts rest, marks = List.replicate parts .part ++ .closes :: rest ∧ Blocks rest
    else Blocks marks := by
  induction marks generalizing open' with
  | nil =>
    cases open' with
    | false => exact .none
    | true => cases accepted
  | cons mark marks ih =>
    cases open' with
    | false =>
      cases mark with
      | opens =>
        obtain ⟨parts, rest, rfl, more⟩ := ih accepted
        have blocks := Blocks.more parts more
        rw [Mark.block, cons_append, append_assoc, singleton_append] at blocks
        exact blocks
      | part => cases accepted
      | closes => cases accepted
    | true =>
      cases mark with
      | opens => cases accepted
      | part =>
        obtain ⟨parts, rest, rfl, more⟩ := ih accepted
        exact ⟨parts + 1, rest, rfl, more⟩
      | closes => exact ⟨0, marks, rfl, ih accepted⟩

theorem toggle_iff {marks : List Mark} : marks.foldlM toggle false = some false ↔ Blocks marks := by
  constructor
  · intro accepted
    exact blocks_of_toggle accepted
  · intro blocks
    induction blocks with
    | none => rfl
    | more parts rest ih =>
      rw [toggle_block]
      exact ih

/-! ### One block -/

/-- How far a block has come. -/
inductive Phase where
  | fresh
  | running
  | ended
deriving DecidableEq, Repr

def Phase.advance : Phase → Mark → Option Phase
  | .fresh, .opens => some .running
  | .running, .part => some .running
  | .running, .closes => some .ended
  | _, _ => none

theorem advance_opens {phase : Phase} : (phase.advance .opens).isSome ↔ phase = .fresh := by
  cases phase <;> simp [Phase.advance]

theorem advance_inside {phase : Phase} {mark : Mark} (inside : mark ≠ .opens) :
    (phase.advance mark).isSome ↔ phase = .running := by
  cases phase <;> cases mark <;> simp [Phase.advance] at inside ⊢

theorem phase_follows {phase last : Phase} {marks : List Mark}
    (accepted : marks.foldlM Phase.advance phase = some last) :
    match phase with
    | .fresh => marks = [] ∧ last = .fresh ∨ (∃ parts, marks = Mark.unclosed parts) ∧ last = .running ∨
        (∃ parts, marks = Mark.block parts) ∧ last = .ended
    | .running => (∃ parts, marks = List.replicate parts .part) ∧ last = .running ∨
        (∃ parts, marks = List.replicate parts .part ++ [.closes]) ∧ last = .ended
    | .ended => marks = [] ∧ last = .ended := by
  induction marks generalizing phase with
  | nil =>
    obtain rfl := Option.some.inj accepted
    cases phase with
    | fresh => exact .inl ⟨rfl, rfl⟩
    | running => exact .inl ⟨⟨0, rfl⟩, rfl⟩
    | ended => exact ⟨rfl, rfl⟩
  | cons mark marks ih =>
    cases phase with
    | fresh =>
      cases mark with
      | opens =>
        rcases ih accepted with ⟨⟨parts, rfl⟩, rfl⟩ | ⟨⟨parts, rfl⟩, rfl⟩
        · exact .inr (.inl ⟨⟨parts, rfl⟩, rfl⟩)
        · exact .inr (.inr ⟨⟨parts, rfl⟩, rfl⟩)
      | part => cases accepted
      | closes => cases accepted
    | running =>
      cases mark with
      | opens => cases accepted
      | part =>
        rcases ih accepted with ⟨⟨parts, rfl⟩, rfl⟩ | ⟨⟨parts, rfl⟩, rfl⟩
        · exact .inl ⟨⟨parts + 1, rfl⟩, rfl⟩
        · exact .inr ⟨⟨parts + 1, rfl⟩, rfl⟩
      | closes =>
        obtain ⟨rfl, rfl⟩ := ih accepted
        exact .inr ⟨⟨0, rfl⟩, rfl⟩
    | ended =>
      cases mark with
      | opens => cases accepted
      | part => cases accepted
      | closes => cases accepted

theorem phase_replicate (parts : Nat) :
    (List.replicate parts Mark.part).foldlM Phase.advance .running = some .running := by
  induction parts with
  | zero => rfl
  | succ parts ih => exact ih

theorem phase_fresh_iff {marks : List Mark} :
    marks.foldlM Phase.advance .fresh = some .fresh ↔ marks = [] := by
  constructor
  · intro accepted
    rcases phase_follows accepted with ⟨empty, -⟩ | ⟨-, other⟩ | ⟨-, other⟩
    · exact empty
    · cases other
    · cases other
  · rintro rfl
    rfl

theorem phase_running_iff {marks : List Mark} :
    marks.foldlM Phase.advance .fresh = some .running ↔ ∃ parts, marks = Mark.unclosed parts := by
  constructor
  · intro accepted
    rcases phase_follows accepted with ⟨-, other⟩ | ⟨unclosed, -⟩ | ⟨-, other⟩
    · cases other
    · exact unclosed
    · cases other
  · rintro ⟨parts, rfl⟩
    exact phase_replicate parts

theorem phase_ended_iff {marks : List Mark} :
    marks.foldlM Phase.advance .fresh = some .ended ↔ ∃ parts, marks = Mark.block parts := by
  constructor
  · intro accepted
    rcases phase_follows accepted with ⟨-, other⟩ | ⟨-, other⟩ | ⟨block, -⟩
    · cases other
    · cases other
    · exact block
  · rintro ⟨parts, rfl⟩
    show (List.replicate parts Mark.part ++ [Mark.closes]).foldlM Phase.advance .running = some .ended
    rw [foldlM_append, phase_replicate]
    rfl

/-! ### Things that come once -/

/-- What has been seen of something that comes at most once. -/
def seen {β : Type} (state : Option β) (value : β) : Option (Option β) :=
  if state.isSome then none else some (some value)

theorem seen_isSome {β : Type} {state : Option β} {value : β} :
    (seen state value).isSome ↔ state = none := by
  cases state <;> simp [seen]

theorem seen_iff {β : Type} {values : List β} {last : Option β} :
    values.foldlM seen none = some last ↔ values = last.toList := by
  cases values with
  | nil =>
    constructor
    · intro accepted
      rw [← Option.some.inj accepted]
      rfl
    · intro empty
      cases last with
      | none => rfl
      | some value => cases empty
  | cons value values =>
    cases values with
    | nil =>
      constructor
      · intro accepted
        rw [← Option.some.inj accepted]
        rfl
      · intro single
        cases last with
        | none => cases single
        | some other =>
          cases single
          rfl
    | cons second values =>
      constructor
      · intro accepted
        cases accepted
      · intro more
        cases last with
        | none => cases more
        | some other => cases more

theorem seen_of_length {β : Type} {values : List β} (few : values.length ≤ 1) :
    (values.foldlM seen none).isSome := by
  cases values with
  | nil => rfl
  | cons value values =>
    obtain rfl : values = [] := by simpa using few
    rfl

/-- The values seen so far, of which no two are equal. -/
def addFresh {β : Type} [DecidableEq β] (state : List β) (value : β) : Option (List β) :=
  if state.contains value then none else some (value :: state)

theorem addFresh_isSome {β : Type} [DecidableEq β] {state : List β} {value : β} :
    (addFresh state value).isSome ↔ value ∉ state := by
  by_cases held : value ∈ state <;> simp [addFresh, held]

theorem addFresh_nodup {β : Type} [DecidableEq β] {values state : List β} :
    (values.foldlM addFresh state).isSome ↔ values.Nodup ∧ ∀ value ∈ values, value ∉ state := by
  induction values generalizing state with
  | nil => simp
  | cons value values ih =>
    rw [foldlM_cons, nodup_cons]
    by_cases held : value ∈ state
    · have refused : addFresh state value = none := by
        rw [addFresh, if_pos (contains_iff_mem.mpr held)]
      rw [refused]
      constructor
      · intro accepted
        cases accepted
      · rintro ⟨-, other⟩
        exact absurd held (other value mem_cons_self)
    · have taken : addFresh state value = some (value :: state) := by
        rw [addFresh, if_neg (by rwa [contains_iff_mem])]
      rw [taken]
      show (values.foldlM addFresh (value :: state)).isSome ↔ _
      rw [ih]
      constructor
      · rintro ⟨nodup, apart⟩
        refine ⟨⟨fun member => apart value member mem_cons_self, nodup⟩, fun other member => ?_⟩
        rcases mem_cons.mp member with rfl | member
        · exact held
        · exact fun old => apart other member (mem_cons_of_mem _ old)
      · rintro ⟨⟨new, nodup⟩, apart⟩
        refine ⟨nodup, fun other member old => ?_⟩
        rcases mem_cons.mp old with rfl | old
        · exact new member
        · exact apart other (mem_cons_of_mem _ member) old

/-! ### Machines that read marks -/

section Observes

variable {σ α β μ ε : Type} {step : σ → α → Except ε σ} {view : σ → β} {advance : β → μ → Option β}
  {mark : α → Option μ}

/-- An automaton at an item that may have no mark for it. -/
def advanceAt (advance : β → μ → Option β) (state : β) : Option μ → Option β
  | none => some state
  | some mark => advance state mark

@[simp] theorem advanceAt_none (state : β) : advanceAt advance state none = some state := rfl

@[simp] theorem advanceAt_some (state : β) (mark : μ) :
    advanceAt advance state (some mark) = advance state mark := rfl

theorem foldlM_filterMap_cons (state : β) (item : α) (items : List α) :
    ((item :: items).filterMap mark).foldlM advance state =
      (advanceAt advance state (mark item)).bind fun next => (items.filterMap mark).foldlM advance next := by
  rw [filterMap_cons]
  cases mark item with
  | none => rfl
  | some mark => rfl

/-- The steps of the machine keep an invariant. -/
def Keeps (step : σ → α → Except ε σ) (invariant : σ → Prop) : Prop :=
  ∀ state item next, invariant state → step state item = .ok next → invariant next

/-- The steps of the machine, from a state with the invariant, move the automaton. -/
def Observes (step : σ → α → Except ε σ) (invariant : σ → Prop) (view : σ → β)
    (advance : β → μ → Option β) (mark : α → Option μ) : Prop :=
  ∀ state item next, invariant state → step state item = .ok next →
    advanceAt advance (view state) (mark item) = some (view next)

theorem observes_foldlM {invariant : σ → Prop} (keeps : Keeps step invariant)
    (observes : Observes step invariant view advance mark) {state last : σ} {items : List α}
    (holds : invariant state) (ran : items.foldlM step state = .ok last) :
    (items.filterMap mark).foldlM advance (view state) = some (view last) := by
  induction items generalizing state with
  | nil =>
    cases ran
    rfl
  | cons item items ih =>
    rw [foldlM_cons] at ran
    obtain ⟨next, first, ran⟩ := except_bind_eq_ok.mp ran
    rw [foldlM_filterMap_cons, observes state item next holds first]
    exact ih (keeps state item next holds first) ran

theorem Observes.uncons {invariant : σ → Prop} (observes : Observes step invariant view advance mark)
    {state next : σ} {item : α} {items : List α} (holds : invariant state)
    (accepted : (((item :: items).filterMap mark).foldlM advance (view state)).isSome)
    (ok : step state item = .ok next) :
    ((items.filterMap mark).foldlM advance (view next)).isSome := by
  rw [foldlM_filterMap_cons, observes state item next holds ok] at accepted
  exact accepted

theorem accepts_head {state : β} {item : α} {items : List α}
    (accepted : (((item :: items).filterMap mark).foldlM advance state).isSome) :
    (advanceAt advance state (mark item)).isSome := by
  rw [foldlM_filterMap_cons] at accepted
  cases head : advanceAt advance state (mark item) with
  | none =>
    rw [head] at accepted
    cases accepted
  | some next => rfl

end Observes

end Byok.Library
