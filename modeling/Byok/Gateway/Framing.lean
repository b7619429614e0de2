/-
**The blocks of an answer of the gateway.**

* `SentBlock` — a content block: its start, its deltas, its stop.
* `Frame` — what was sent is closed blocks and the open one.
* `run_indexes`, `run_ordered` — each index is used once, and in order where the answer is strict.
-/

import Byok.Gateway.Response
import Mathlib.Data.List.Perm.Basic

namespace Byok.Gateway

open Library List

/-! ### Content blocks -/

/-- A content block, as it is sent. -/
structure SentBlock where
  index : Nat
  block : Value
  deltas : List Delta

/-- The type of the blocks that a delta belongs to. -/
def Delta.blockType : Delta → String
  | .text _ => "text"
  | .thinking _ => "thinking"
  | .signature _ => "thinking"
  | .inputJson _ => "tool_use"

namespace SentBlock

/-- A block that is not stopped yet. -/
def opening (sent : SentBlock) : List StreamEvent :=
  .contentBlockStart sent.index sent.block :: sent.deltas.map (.contentBlockDelta sent.index)

def events (sent : SentBlock) : List StreamEvent := sent.opening ++ [.contentBlockStop sent.index]

/-- The deltas are of the kind of the block. -/
def Proper (sent : SentBlock) : Prop :=
  ∀ delta ∈ sent.deltas, (sent.block.get "type").bind Value.asStr = some delta.blockType

/-- The argument text of a block. -/
def argumentsText (sent : SentBlock) : String :=
  String.join (sent.deltas.filterMap fun delta =>
    match delta with
    | .inputJson part => some part
    | _ => none)

/-- The call of a `tool_use` block: its id, its name and its argument text. -/
def call? (sent : SentBlock) : Option (String × String × String) :=
  if (sent.block.get "type").bind Value.asStr = some "tool_use" then
    some (((sent.block.get "id").bind Value.asStr).getD "", ((sent.block.get "name").bind Value.asStr).getD "",
      sent.argumentsText)
  else none

end SentBlock

/-! ### The frames of an answer -/

/-- Closed blocks, the open one, the indexes that wait for their block, and the next index. -/
structure Frame where
  blocks : List SentBlock := []
  last : Option SentBlock := none
  waiting : List Nat := []
  next : Nat := 0

namespace Frame

def sent (frame : Frame) : List SentBlock := frame.blocks ++ frame.last.toList

def events (frame : Frame) : List StreamEvent :=
  frame.blocks.flatMap SentBlock.events ++ frame.last.toList.flatMap SentBlock.opening

/-- The indexes, in the order in which they are sent. -/
def order (frame : Frame) : List Nat := frame.sent.map SentBlock.index ++ frame.waiting

/-- The calls of the blocks. -/
def called (frame : Frame) : List (String × String × String) := frame.sent.filterMap SentBlock.call?

/-- What can happen to the blocks. A strict one does not let a new block overtake one that waits. -/
inductive Step (strict : Bool) : Frame → Option StreamEvent → Frame → Prop
  | starts {blocks : List SentBlock} {waiting : List Nat} {next : Nat} (block : Value)
      (ready : strict = true → waiting = []) :
      Step strict ⟨blocks, none, waiting, next⟩ (some (.contentBlockStart next block))
        ⟨blocks, some ⟨next, block, []⟩, waiting, next + 1⟩
  | delivers {blocks : List SentBlock} {index : Nat} {waiting : List Nat} {next : Nat} (block : Value) :
      Step strict ⟨blocks, none, index :: waiting, next⟩ (some (.contentBlockStart index block))
        ⟨blocks, some ⟨index, block, []⟩, waiting, next⟩
  | adds {blocks : List SentBlock} {last : SentBlock} {waiting : List Nat} {next : Nat} {delta : Delta}
      (kind : (last.block.get "type").bind Value.asStr = some delta.blockType) :
      Step strict ⟨blocks, some last, waiting, next⟩ (some (.contentBlockDelta last.index delta))
        ⟨blocks, some { last with deltas := last.deltas ++ [delta] }, waiting, next⟩
  | stops {blocks : List SentBlock} {last : SentBlock} {waiting : List Nat} {next : Nat} :
      Step strict ⟨blocks, some last, waiting, next⟩ (some (.contentBlockStop last.index))
        ⟨blocks ++ [last], none, waiting, next⟩
  | reserves {blocks : List SentBlock} {last : Option SentBlock} {waiting : List Nat} {next : Nat} :
      Step strict ⟨blocks, last, waiting, next⟩ none ⟨blocks, last, waiting ++ [next], next + 1⟩

end Frame

/-- The blocks of an answer. -/
def frames (strict : Bool) : System Frame (Option StreamEvent) where
  initial frame := frame = {}
  step := Frame.Step strict

/-- **What was sent is the blocks.** -/
theorem run_events {strict : Bool} {start last : Frame} {labels : List (Option StreamEvent)}
    (run : (frames strict).Run start labels last) : last.events = start.events ++ labels.filterMap id := by
  induction run with
  | nil => rw [filterMap_nil, append_nil]
  | snoc run step ih =>
    rw [filterMap_append, ← append_assoc, ← ih]
    cases step with
    | starts => simp [Frame.events, SentBlock.opening]
    | delivers => simp [Frame.events, SentBlock.opening]
    | adds => simp [Frame.events, SentBlock.opening]
    | stops => simp [Frame.events, SentBlock.events]
    | reserves => simp [Frame.events]

/-- Each delta is of the kind of its block. -/
def Frame.Proper (frame : Frame) : Prop := ∀ block ∈ frame.sent, block.Proper

theorem run_proper {strict : Bool} {start last : Frame} {labels : List (Option StreamEvent)}
    (proper : start.Proper) (run : (frames strict).Run start labels last) : last.Proper := by
  refine System.run_invariant ?_ proper run
  intro before label after proper step
  cases step with
  | starts block | delivers block =>
    refine forall_mem_append.mpr ⟨fun other member => proper other (mem_append_left _ member), ?_⟩
    intro other member delta none
    rw [mem_singleton.mp member] at none
    cases none
  | @adds blocks last waiting next delta kind =>
    obtain ⟨early, late⟩ := forall_mem_append.mp proper
    refine forall_mem_append.mpr ⟨early, ?_⟩
    intro block member
    rw [mem_singleton.mp member]
    intro other inside
    rcases mem_append.mp inside with old | new
    · exact late last mem_cons_self other old
    · rw [mem_singleton.mp new]
      exact kind
  | stops =>
    intro block member
    exact proper block (by simpa [Frame.sent] using member)
  | reserves => exact proper

theorem step_order {strict : Bool} {before after : Frame} {label : Option StreamEvent}
    (step : (frames strict).step before label after) :
    (after.order = before.order ∧ after.next = before.next) ∨
      (after.order = before.order ++ [before.next] ∧ after.next = before.next + 1) ∨
      (strict = false ∧ after.order.Perm (before.order ++ [before.next]) ∧ after.next = before.next + 1) := by
  cases step with
  | @starts blocks waiting next block ready =>
    cases strict with
    | true =>
      obtain rfl := ready rfl
      exact .inr (.inl ⟨by simp [Frame.order, Frame.sent], rfl⟩)
    | false =>
      refine .inr (.inr ⟨rfl, ?_, rfl⟩)
      simp only [Frame.order, Frame.sent, Option.toList_some, Option.toList_none, append_nil, map_append,
        map_cons, map_nil, append_assoc]
      exact List.Perm.append_left _ perm_append_comm
  | delivers => exact .inl ⟨by simp [Frame.order, Frame.sent], rfl⟩
  | adds => exact .inl ⟨by simp [Frame.order, Frame.sent], rfl⟩
  | stops => exact .inl ⟨by simp [Frame.order, Frame.sent], rfl⟩
  | reserves => exact .inr (.inl ⟨by simp [Frame.order, Frame.sent], rfl⟩)

/-- **Each index is that of one block.** -/
theorem run_indexes {strict : Bool} {start last : Frame} {labels : List (Option StreamEvent)}
    (indexes : start.order.Perm (List.range start.next)) (run : (frames strict).Run start labels last) :
    last.order.Perm (List.range last.next) := by
  refine @System.run_invariant _ _ _ (fun frame => frame.order.Perm (List.range frame.next)) ?_ _ _ _ indexes run
  intro before label after indexes step
  rcases step_order step with ⟨order, next⟩ | ⟨order, next⟩ | ⟨-, order, next⟩
  · rw [order, next]
    exact indexes
  · rw [order, next, range_succ]
    exact indexes.append_right _
  · rw [next, range_succ]
    exact order.trans (indexes.append_right _)

/-- **Where no block overtakes another, they are sent in the order of their indexes.** -/
theorem run_ordered {start last : Frame} {labels : List (Option StreamEvent)}
    (ordered : start.order = List.range start.next) (run : (frames true).Run start labels last) :
    last.order = List.range last.next := by
  refine @System.run_invariant _ _ _ (fun frame => frame.order = List.range frame.next) ?_ _ _ _ ordered run
  intro before label after ordered step
  rcases step_order step with ⟨order, next⟩ | ⟨order, next⟩ | ⟨strict, -, -⟩
  · rw [order, next, ordered]
  · rw [order, next, range_succ, ordered]
  · cases strict

end Byok.Gateway
