/-
**The calls of an answer of the gateway.** The translator beside the loop of a model call, which takes the same
events.

* `toolCalls` — the calls of a stream, in the order of their starts, with their argument texts.
* `Tracks` — the calls that are delivered, and those that wait.
* `tracks_push` — a push delivers the calls that are complete.
-/

import Byok.Gateway.Simulation
import Byok.Run.ProviderStream

namespace Byok.Gateway

open Library ModelEvent CycleState ResponseTranslator List

variable {parse : String → Except String Value} {client : ClientChannel}
variable {machine next : CycleState} {translator : ResponseTranslator} {event : ModelEvent}

/-! ### The calls of a stream -/

/-- A start: the index of the provider, the id and the name. -/
def toolStart : ModelEvent → Option (Nat × String × String)
  | .toolCallStart index callId name => some (index, callId, name)
  | _ => none

def argumentsText (events : List ModelEvent) (index : Nat) : String :=
  String.join (events.filterMap (argumentsPart index))

/-- A call with its whole argument text. -/
def callOf (events : List ModelEvent) (start : Nat × String × String) : String × String × String :=
  (start.2.1, start.2.2, argumentsText events start.1)

/-- The calls of a stream, in the order of their starts. -/
def toolCalls (events : List ModelEvent) : List (String × String × String) :=
  (events.filterMap toolStart).map (callOf events)

/-! ### Calls that are delivered, and calls that wait -/

/-- The tool of a call that waits. -/
def pendingOf (machine : CycleState) (read : List ModelEvent) (start : Nat × String × String) : PendingTool :=
  ⟨start.1, start.2.1, start.2.2, argumentsText read start.1, decide (machine.toolPhase start.1 = .ended)⟩

/-- The calls that were read are those that were delivered and those that wait. -/
structure Tracks (machine : CycleState) (tools : List (Nat × PendingTool)) (read : List ModelEvent)
    (done waiting : List (Nat × String × String)) : Prop where
  starts : read.filterMap toolStart = done ++ waiting
  tools : tools.map Prod.snd = waiting.map (pendingOf machine read)
  ended : ∀ start ∈ done, machine.toolPhase start.1 = .ended
  known : ∀ index, machine.toolPhase index = .fresh ↔ index ∉ (read.filterMap toolStart).map Prod.fst
  quiet : ∀ index, machine.toolPhase index = .fresh → read.filterMap (argumentsPart index) = []
  distinct : ((read.filterMap toolStart).map Prod.fst).Nodup

theorem updateFirst_map (providerIndex : Nat) (update : PendingTool → PendingTool) {tools : List (Nat × PendingTool)}
    (distinct : (tools.map fun entry => entry.2.providerIndex).Nodup) :
    (updateTool.updateFirst providerIndex update tools).map Prod.snd =
      (tools.map Prod.snd).map fun tool => if tool.providerIndex = providerIndex then update tool else tool := by
  induction tools with
  | nil => rfl
  | cons entry tools ih =>
    obtain ⟨index, tool⟩ := entry
    rw [map_cons, nodup_cons] at distinct
    rw [updateTool.updateFirst]
    by_cases same : tool.providerIndex = providerIndex
    · rw [if_pos same, map_cons, map_cons, map_cons, if_pos same]
      refine congrArg _ ?_
      rw [← map_id (List.map Prod.snd tools)]
      simp only [map_map]
      refine map_congr_left fun other member => ?_
      have apart : other.2.providerIndex ≠ providerIndex := fun equal =>
        distinct.1 (same.trans equal.symm ▸ mem_map_of_mem member)
      simp [apart]
    · rw [if_neg same, map_cons, map_cons, map_cons, if_neg same, ih distinct.2]

variable {tools : List (Nat × PendingTool)} {read : List ModelEvent} {done waiting : List (Nat × String × String)}

theorem argumentsText_append (read : List ModelEvent) (event : ModelEvent) (index : Nat) :
    argumentsText (read ++ [event]) index = argumentsText read index ++ (argumentsPart index event).getD "" := by
  rw [argumentsText, argumentsText, filterMap_append]
  cases part : argumentsPart index event with
  | none => simp [part, String.join]
  | some delta => simp [part, String.join]

theorem callOf_append {read : List ModelEvent} {event : ModelEvent} {start : Nat × String × String}
    (quiet : argumentsPart start.1 event = none) : callOf (read ++ [event]) start = callOf read start := by
  rw [callOf, argumentsText_append, quiet, Option.getD_none, String.append_empty, callOf]

namespace Tracks

theorem initial : Tracks .initial [] [] [] [] where
  starts := rfl
  tools := rfl
  ended start member := absurd member not_mem_nil
  known index := by
    rw [toolPhase_fresh, CycleState.initial, Std.TreeMap.getElem?_emptyc]
    simp
  quiet _ _ := rfl
  distinct := nodup_nil

theorem not_fresh (tracks : Tracks machine tools read done waiting) {start : Nat × String × String}
    (member : start ∈ done ++ waiting) : machine.toolPhase start.1 ≠ .fresh := by
  intro fresh
  refine (tracks.known start.1).mp fresh ?_
  rw [tracks.starts]
  exact mem_map_of_mem member

theorem indexes (tracks : Tracks machine tools read done waiting) :
    tools.map (fun entry => entry.2.providerIndex) = waiting.map Prod.fst := by
  have mapped := congrArg (List.map PendingTool.providerIndex) tracks.tools
  rw [map_map, map_map] at mapped
  exact mapped

theorem indexes_nodup (tracks : Tracks machine tools read done waiting) :
    (tools.map fun entry => entry.2.providerIndex).Nodup := by
  have distinct := tracks.distinct
  rw [tracks.starts, map_append] at distinct
  rw [tracks.indexes]
  exact distinct.of_append_right

theorem pass (tracks : Tracks machine tools read done waiting) (start : toolStart event = none)
    (part : ∀ index, argumentsPart index event = none)
    (same : ∀ index, next.toolPhase index = machine.toolPhase index) :
    Tracks next tools (read ++ [event]) done waiting := by
  have starts : (read ++ [event]).filterMap toolStart = read.filterMap toolStart := by
    rw [filterMap_append, filterMap_cons_none start, filterMap_nil, append_nil]
  have text : ∀ index, argumentsText (read ++ [event]) index = argumentsText read index := fun index => by
    rw [argumentsText_append, part, Option.getD_none, String.append_empty]
  refine ⟨starts.trans tracks.starts, ?_, ?_, ?_, ?_, starts ▸ tracks.distinct⟩
  · rw [tracks.tools]
    refine map_congr_left fun entry _ => ?_
    rw [pendingOf, pendingOf, text, same]
  · exact fun entry member => (same entry.1).trans (tracks.ended entry member)
  · intro index
    rw [same, starts]
    exact tracks.known index
  · intro index fresh
    rw [filterMap_append, filterMap_cons_none (part index), filterMap_nil, append_nil]
    exact tracks.quiet index (same index ▸ fresh)

theorem begin' {index blockIndex : Nat} {callId name : String} (tracks : Tracks machine tools read done waiting)
    (fresh : machine.toolPhase index = .fresh) (running : next.toolPhase index = .running)
    (same : ∀ other, other ≠ index → next.toolPhase other = machine.toolPhase other) :
    Tracks next (tools ++ [(blockIndex, ⟨index, callId, name, "", false⟩)]) (read ++ [.toolCallStart index callId name])
      done (waiting ++ [(index, callId, name)]) := by
  have starts : (read ++ [ModelEvent.toolCallStart index callId name]).filterMap toolStart =
      read.filterMap toolStart ++ [(index, callId, name)] := by
    rw [filterMap_append]
    rfl
  have unknown := (tracks.known index).mp fresh
  have apart : ∀ start ∈ done ++ waiting, start.1 ≠ index := by
    intro start member equal
    exact tracks.not_fresh member (equal ▸ fresh)
  refine ⟨?_, ?_, ?_, ?_, ?_, ?_⟩
  · rw [starts, tracks.starts, append_assoc]
  · rw [map_append, map_append, tracks.tools]
    refine congrArg₂ _ (map_congr_left fun entry member => ?_) ?_
    · rw [pendingOf, pendingOf, argumentsText_append, same entry.1 (apart entry (mem_append_right _ member))]
      simp [argumentsPart]
    · have none : argumentsText read index = "" := by
        rw [argumentsText, tracks.quiet index fresh]
        rfl
      simp [pendingOf, argumentsText_append, argumentsPart, none, running]
  · intro start member
    rw [same start.1 (apart start (mem_append_left _ member))]
    exact tracks.ended start member
  · intro other
    rw [starts, map_append, mem_append]
    by_cases equal : other = index
    · subst equal
      simp [running]
    · rw [same other equal, tracks.known other]
      simp [equal]
  · intro other phase
    have unlike : other ≠ index := by
      rintro rfl
      rw [running] at phase
      cases phase
    rw [filterMap_append, tracks.quiet other (same other unlike ▸ phase)]
    rfl
  · rw [starts, map_append]
    refine nodup_append.mpr ⟨tracks.distinct, nodup_singleton _, fun other member last inside equal => ?_⟩
    have here : other = index := equal.trans (mem_singleton.mp inside)
    exact unknown (here ▸ member)

theorem update {index : Nat} {change : PendingTool → PendingTool} (tracks : Tracks machine tools read done waiting)
    (start : toolStart event = none) (part : ∀ other, other ≠ index → argumentsPart other event = none)
    (running : machine.toolPhase index = .running) (going : next.toolPhase index ≠ .fresh)
    (same : ∀ other, other ≠ index → next.toolPhase other = machine.toolPhase other)
    (changes : ∀ start : Nat × String × String, start.1 = index →
      change (pendingOf machine read start) = pendingOf next (read ++ [event]) start) :
    Tracks next (updateTool.updateFirst index change tools) (read ++ [event]) done waiting := by
  have starts : (read ++ [event]).filterMap toolStart = read.filterMap toolStart := by
    rw [filterMap_append, filterMap_cons_none start, filterMap_nil, append_nil]
  have apart : ∀ start ∈ done, start.1 ≠ index := by
    intro start member equal
    have ended := tracks.ended start member
    rw [equal, running] at ended
    cases ended
  refine ⟨starts.trans tracks.starts, ?_, ?_, ?_, ?_, starts ▸ tracks.distinct⟩
  · rw [updateFirst_map index change tracks.indexes_nodup, tracks.tools, map_map]
    refine map_congr_left fun entry _ => ?_
    show (if entry.1 = index then change (pendingOf machine read entry) else pendingOf machine read entry) = _
    by_cases here : entry.1 = index
    · rw [if_pos here, changes entry here]
    · rw [if_neg here, pendingOf, pendingOf, argumentsText_append, part entry.1 here, same entry.1 here,
        Option.getD_none, String.append_empty]
  · intro entry member
    rw [same entry.1 (apart entry member)]
    exact tracks.ended entry member
  · intro other
    rw [starts]
    by_cases equal : other = index
    · subst equal
      refine ⟨fun fresh => absurd fresh going, fun unknown => ?_⟩
      rw [← tracks.known, running] at unknown
      cases unknown
    · rw [same other equal]
      exact tracks.known other
  · intro other phase
    have unlike : other ≠ index := fun equal => going (equal ▸ phase)
    rw [filterMap_append, filterMap_cons_none (part other unlike), filterMap_nil, append_nil]
    exact tracks.quiet other (same other unlike ▸ phase)

theorem split_ended {tools : List (Nat × PendingTool)} {waiting : List (Nat × String × String)}
    (same : tools.map Prod.snd = waiting.map (pendingOf machine read)) :
    ∃ first rest, waiting = first ++ rest ∧ (∀ start ∈ first, machine.toolPhase start.1 = .ended) ∧
      (tools.dropWhile fun entry => entry.2.ended).map Prod.snd = rest.map (pendingOf machine read) ∧
      (tools.takeWhile fun entry => entry.2.ended).map (fun entry => PendingTool.call entry.2) =
        first.map (callOf read) := by
  induction tools generalizing waiting with
  | nil =>
    obtain rfl := map_eq_nil_iff.mp same.symm
    exact ⟨[], [], rfl, fun _ none => absurd none not_mem_nil, rfl, rfl⟩
  | cons entry tools ih =>
    obtain ⟨start, others, rfl, head, tail⟩ := map_eq_cons_iff.mp same.symm
    by_cases ended : machine.toolPhase start.1 = .ended
    · obtain ⟨first, rest, rfl, all, left, calls⟩ := ih tail.symm
      have ready : entry.2.ended = true := by
        rw [← head]
        exact decide_eq_true ended
      refine ⟨start :: first, rest, rfl, forall_mem_cons.mpr ⟨ended, all⟩, ?_, ?_⟩
      · rw [dropWhile_cons_of_pos (by exact ready)]
        exact left
      · rw [takeWhile_cons_of_pos (by exact ready), map_cons, map_cons, calls, ← head]
        rfl
    · have waits : ¬ entry.2.ended = true := by
        rw [← head]
        exact fun ready => ended (of_decide_eq_true ready)
      refine ⟨[], start :: others, rfl, fun _ none => absurd none not_mem_nil, ?_, ?_⟩
      · rw [dropWhile_cons_of_neg (by exact waits)]
        exact same
      · rw [takeWhile_cons_of_neg (by exact waits)]
        rfl

theorem deliver (tracks : Tracks machine tools read done waiting) :
    ∃ first rest, Tracks machine (tools.dropWhile fun entry => entry.2.ended) read (done ++ first) rest ∧
      (tools.takeWhile fun entry => entry.2.ended).map (fun entry => PendingTool.call entry.2) =
        first.map (callOf read) := by
  obtain ⟨first, rest, rfl, ended, left, calls⟩ := split_ended tracks.tools
  refine ⟨first, rest, ⟨?_, left, ?_, tracks.known, tracks.quiet, tracks.distinct⟩, calls⟩
  · rw [tracks.starts, append_assoc]
  · exact forall_mem_append.mpr ⟨tracks.ended, ended⟩

end Tracks

/-! ### Pushes -/

theorem phases (started : machine.Started) (ok : machine.handle parse client event = .ok next) (index : Nat) :
    advanceAt Phase.advance (machine.toolPhase index) (toolMark index event) = some (next.toolPhase index) :=
  observes_tool index machine event next started ok

theorem phase_other (started : machine.Started) (ok : machine.handle parse client event = .ok next) {index : Nat}
    (other : toolMark index event = none) : next.toolPhase index = machine.toolPhase index := by
  have moved := phases started ok index
  rw [other] at moved
  exact (Option.some.inj moved).symm

theorem pushEvent_tools (start : toolStart event = none) (part : ∀ index, argumentsPart index event = none)
    (mark : ∀ index, toolMark index event = none) :
    (translator.pushEvent event).1.tools = translator.tools ∧ delivered translator event = [] := by
  cases event with
  | textDelta delta => exact ⟨(pushText_tools delta).1.trans (ensureOpen_same .text 0).tools, rfl⟩
  | thinkingDelta delta =>
    exact ⟨(congrArg ResponseTranslator.tools (delta_same _ _ _)).trans (ensureOpen_same .thinking 0).tools, rfl⟩
  | thinkingSignature signature =>
    refine ⟨?_, rfl⟩
    rw [pushEvent]
    split
    · exact congrArg ResponseTranslator.tools (delta_same _ _ _)
    · rfl
  | textStart => exact ⟨(openBlock_same .text 0).tools, rfl⟩
  | textEnd => exact ⟨(closeKind_same .text).tools, rfl⟩
  | thinkingStart => exact ⟨(openBlock_same .thinking 0).tools, rfl⟩
  | thinkingEnd => exact ⟨(closeKind_same .thinking).tools, rfl⟩
  | providerReplayState state => exact ⟨(redactedLoop_same _).tools, rfl⟩
  | stopSequence sequence => exact ⟨(close_same _).tools, rfl⟩
  | start id => exact ⟨rfl, rfl⟩
  | usage usage => exact ⟨rfl, rfl⟩
  | done reason => exact ⟨rfl, rfl⟩
  | toolCallStart index callId name => cases start
  | toolCallArgumentsDelta index delta =>
    have none := part index
    rw [argumentsPart, if_pos rfl] at none
    cases none
  | toolCallEnd index =>
    have none := mark index
    rw [toolMark, if_pos rfl] at none
    cases none

/-- **A push delivers the calls that are complete.** -/
theorem tracks_push {read : List ModelEvent} {done waiting : List (Nat × String × String)}
    (tracks : Tracks machine translator.tools read done waiting) (started : machine.Started)
    (ok : machine.handle parse client event = .ok next) :
    ∃ first rest, Tracks next (translator.pushEvent event).1.tools (read ++ [event]) (done ++ first) rest ∧
      (delivered translator event).map (fun entry => PendingTool.call entry.2) = first.map (callOf (read ++ [event])) := by
  have moved := phases started ok
  have other := @phase_other _ _ _ _ _ started ok
  by_cases hears : ∃ index, toolMark index event ≠ none
  · obtain ⟨index, hears⟩ := hears
    cases event with
    | toolCallStart index' callId name =>
      obtain rfl : index' = index := by_contra fun apart => hears (if_neg apart)
      have here := moved index'
      rw [toolMark, if_pos rfl, advanceAt_some] at here
      have fresh : machine.toolPhase index' = .fresh := advance_opens.mp (by rw [here]; rfl)
      have running : next.toolPhase index' = .running := by
        rw [fresh] at here
        exact (Option.some.inj here).symm
      refine ⟨[], waiting ++ [(index', callId, name)], ?_, rfl⟩
      rw [append_nil, pushEvent, reserveTool, if_neg]
      · refine tracks.begin' fresh running fun apart unlike => other ?_
        rw [toolMark, if_neg (Ne.symm unlike)]
      · intro reserved
        obtain ⟨entry, member, same⟩ := any_eq_true.mp reserved
        have listed : index' ∈ waiting.map Prod.fst := by
          rw [← tracks.indexes, ← of_decide_eq_true same]
          exact mem_map_of_mem member
        obtain ⟨start, inside, equal⟩ := mem_map.mp listed
        exact tracks.not_fresh (mem_append_right _ inside) (equal ▸ fresh)
    | toolCallArgumentsDelta index' delta =>
      obtain rfl : index' = index := by_contra fun apart => hears (if_neg apart)
      have here := moved index'
      rw [toolMark, if_pos rfl, advanceAt_some] at here
      have running : machine.toolPhase index' = .running :=
        (advance_inside (show Mark.part ≠ .opens by decide)).mp (by rw [here]; rfl)
      have still : next.toolPhase index' = .running := by
        rw [running] at here
        exact (Option.some.inj here).symm
      have silent : ∀ index, index ≠ index' → argumentsPart index (.toolCallArgumentsDelta index' delta) = none :=
        fun index unlike => by rw [argumentsPart, if_neg (Ne.symm unlike)]
      refine ⟨[], waiting, ?_, rfl⟩
      rw [append_nil]
      refine tracks.update rfl silent running (by rw [still]; decide) (fun apart unlike => other ?_) fun start same => ?_
      · rw [toolMark, if_neg (Ne.symm unlike)]
      · subst same
        simp only [pendingOf, argumentsText_append, argumentsPart, if_true, Option.getD_some, running, still]
    | toolCallEnd index' =>
      obtain rfl : index' = index := by_contra fun apart => hears (if_neg apart)
      have here := moved index'
      rw [toolMark, if_pos rfl, advanceAt_some] at here
      have running : machine.toolPhase index' = .running :=
        (advance_inside (show Mark.closes ≠ .opens by decide)).mp (by rw [here]; rfl)
      have ended : next.toolPhase index' = .ended := by
        rw [running] at here
        exact (Option.some.inj here).symm
      have later : Tracks next (translator.updateTool index' fun tool => { tool with ended := true }).tools
          (read ++ [.toolCallEnd index']) done waiting := by
        refine tracks.update rfl (fun _ _ => rfl) running (by rw [ended]; decide) (fun apart unlike => other ?_)
          fun start same => ?_
        · rw [toolMark, if_neg (Ne.symm unlike)]
        · subst same
          simp only [pendingOf, argumentsText_append, argumentsPart, Option.getD_none, String.append_empty, ended]
          rfl
      obtain ⟨first, rest, delivered, calls⟩ := later.deliver
      refine ⟨first, rest, ?_, calls⟩
      rw [pushEvent, flushFinishedTools, (flushWhile_tools _ _ _).1]
      exact delivered
    | _ => exact absurd rfl hears
  · have silent : ∀ index, toolMark index event = none := fun index => by
      by_contra heard
      exact hears ⟨index, heard⟩
    have quiet : toolStart event = none ∧ ∀ index, argumentsPart index event = none := by
      cases event with
      | toolCallStart index callId name =>
        have none := silent index
        rw [toolMark, if_pos rfl] at none
        cases none
      | toolCallArgumentsDelta index delta =>
        have none := silent index
        rw [toolMark, if_pos rfl] at none
        cases none
      | _ => exact ⟨rfl, fun _ => rfl⟩
    obtain ⟨tools, nothing⟩ := pushEvent_tools quiet.1 quiet.2 silent
    refine ⟨[], waiting, ?_, by rw [nothing]; rfl⟩
    rw [append_nil, tools]
    exact tracks.pass quiet.1 quiet.2 fun index => other (silent index)

end Byok.Gateway
