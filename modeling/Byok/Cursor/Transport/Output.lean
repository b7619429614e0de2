/-
**The output of a transport.** `server/src/cursor/transport/output.rs`.

The hub keeps every frame. A subscriber gets the frames so far and then the new ones through one bounded queue;
who is too slow for it is cut off.

* `Sound`, `run_sound` — the invariant of every run: a subscriber that is not cut off has, read or waiting, all
  frames.
* `lossless_iff` — no frame is lost or doubled in any run. Only old frames that still wait may cut off a
  subscriber that is not slow.
-/

import Mathlib.Data.List.Infix
import Mathlib.Tactic.Common

namespace Byok.Cursor.Transport

open List

/-! ### A subscriber -/

def subscriberQueueFrames : Nat := 1024

inductive TrySendError where
  | full
  | closed
deriving DecidableEq, Repr

/-- A channel, with both of its ends, what its receiver has taken, and how many frames there were when it was made.
`cut` is set when the hub drops its sender because the queue is full. -/
structure Subscriber (α : Type) where
  capacity : Nat
  queue : List α
  sender : Bool
  receiver : Bool
  received : List α
  joined : Nat
  cut : Bool
deriving DecidableEq, Repr

namespace Subscriber

variable {α : Type}

def channel (capacity joined : Nat) : Subscriber α := ⟨capacity, [], true, true, [], joined, false⟩

def trySend (subscriber : Subscriber α) (frame : α) : Except TrySendError (Subscriber α) :=
  if !subscriber.receiver then .error .closed
  else if subscriber.queue.length < subscriber.capacity then
    .ok { subscriber with queue := subscriber.queue ++ [frame] }
  else .error .full

/-- What `emit` does with a subscriber. -/
def deliver (subscriber : Subscriber α) (frame : α) : Subscriber α :=
  if !subscriber.sender then subscriber
  else
    match subscriber.trySend frame with
    | .ok sent => sent
    | .error .full => { subscriber with sender := false, cut := true }
    | .error .closed => { subscriber with sender := false }

/-- A replayed frame; a failure is not looked at. -/
def replay (subscriber : Subscriber α) (frame : α) : Subscriber α :=
  match subscriber.trySend frame with
  | .ok sent => sent
  | .error _ => subscriber

def dropSender (subscriber : Subscriber α) : Subscriber α := { subscriber with sender := false }

/-- `Receiver::recv`, when there is a frame. -/
def receive (subscriber : Subscriber α) : Subscriber α :=
  match subscriber.queue with
  | [] => subscriber
  | frame :: queue =>
    if subscriber.receiver then { subscriber with queue := queue, received := subscriber.received ++ [frame] }
    else subscriber

/-- The receiver is dropped, and what waits for it. -/
def leave (subscriber : Subscriber α) : Subscriber α := { subscriber with receiver := false, queue := [] }

end Subscriber

/-! ### The hub -/

/-- `OutputHub`, with all channels that were made. Its senders are those that are kept. -/
structure OutputHub (α : Type) where
  history : List α
  subscribers : List (Subscriber α)
  closed : Bool
deriving DecidableEq, Repr

/-- What is done with a hub and its receivers. -/
inductive OutputAct (α : Type) where
  | emit (frame : α)
  | subscribe
  | close
  | receive (index : Nat)
  | leave (index : Nat)
deriving DecidableEq, Repr

namespace OutputAct

variable {α : Type}

def closes : OutputAct α → Bool
  | .close => true
  | _ => false

def frames : OutputAct α → List α
  | .emit frame => [frame]
  | _ => []

end OutputAct

namespace OutputHub

variable {α : Type}

/-- `OutputHub::default`. -/
def empty : OutputHub α := ⟨[], [], false⟩

def emit (hub : OutputHub α) (frame : α) : Bool × OutputHub α :=
  if hub.closed then (false, hub)
  else (true, { hub with
    history := hub.history ++ [frame], subscribers := hub.subscribers.map (·.deliver frame) })

/-- The receiver that `subscribe` makes. -/
def attached (hub : OutputHub α) : Subscriber α :=
  let sent := hub.history.foldl Subscriber.replay
    (.channel (max subscriberQueueFrames hub.history.length) hub.history.length)
  if hub.closed then sent.dropSender else sent

def subscribe (hub : OutputHub α) : OutputHub α := { hub with subscribers := hub.subscribers ++ [hub.attached] }

def close (hub : OutputHub α) : Bool × OutputHub α :=
  if hub.closed then (false, hub)
  else (true, { hub with closed := true, subscribers := hub.subscribers.map Subscriber.dropSender })

/-- One step. -/
def act (hub : OutputHub α) : OutputAct α → OutputHub α
  | .emit frame => (hub.emit frame).2
  | .subscribe => hub.subscribe
  | .close => hub.close.2
  | .receive index => { hub with subscribers := hub.subscribers.modify index Subscriber.receive }
  | .leave index => { hub with subscribers := hub.subscribers.modify index Subscriber.leave }

/-- A run of a hub. -/
def run (acts : List (OutputAct α)) : OutputHub α := acts.foldl act empty

@[simp] theorem run_nil : run ([] : List (OutputAct α)) = empty := rfl

theorem run_concat (acts : List (OutputAct α)) (last : OutputAct α) : run (acts ++ [last]) = (run acts).act last := by
  rw [run, foldl_append]
  rfl

/-! ### The invariant -/

/-- What is known of a subscriber of a hub. -/
structure Follows (history : List α) (closed : Bool) (subscriber : Subscriber α) : Prop where
  begins : subscriber.received ++ subscriber.queue <+: history
  whole : subscriber.receiver = true → subscriber.cut = false →
    subscriber.received ++ subscriber.queue = history
  sender : subscriber.receiver = true → (subscriber.sender = true ↔ subscriber.cut = false ∧ closed = false)
  closed : closed = true → subscriber.sender = false
  joined : subscriber.joined ≤ history.length
  capacity : subscriber.capacity = max subscriberQueueFrames subscriber.joined
  bound : subscriber.queue.length ≤ subscriber.capacity

structure Sound (hub : OutputHub α) : Prop where
  follows : ∀ subscriber ∈ hub.subscribers, Follows hub.history hub.closed subscriber

/-! ### A step of a subscriber -/

section

variable {history : List α} {closed : Bool} {subscriber : Subscriber α} {frame : α}

theorem deliver_dropped (dropped : subscriber.sender = false) : subscriber.deliver frame = subscriber := by
  simp [Subscriber.deliver, dropped]

theorem deliver_gone (kept : subscriber.sender = true) (gone : subscriber.receiver = false) :
    subscriber.deliver frame = { subscriber with sender := false } := by
  simp [Subscriber.deliver, Subscriber.trySend, kept, gone]

theorem deliver_room (kept : subscriber.sender = true) (here : subscriber.receiver = true)
    (room : subscriber.queue.length < subscriber.capacity) :
    subscriber.deliver frame = { subscriber with queue := subscriber.queue ++ [frame] } := by
  simp [Subscriber.deliver, Subscriber.trySend, kept, here, room]

theorem deliver_full (kept : subscriber.sender = true) (here : subscriber.receiver = true)
    (full : ¬ subscriber.queue.length < subscriber.capacity) :
    subscriber.deliver frame = { subscriber with sender := false, cut := true } := by
  simp [Subscriber.deliver, Subscriber.trySend, kept, here, full]

theorem Follows.deliver (follows : Follows history false subscriber) (frame : α) :
    Follows (history ++ [frame]) false (subscriber.deliver frame) := by
  have longer : history <+: history ++ [frame] := prefix_append _ _
  have begins := follows.begins.trans longer
  have joined := follows.joined.trans longer.length_le
  by_cases kept : subscriber.sender = true
  · by_cases here : subscriber.receiver = true
    · obtain ⟨uncut, -⟩ := (follows.sender here).mp kept
      by_cases room : subscriber.queue.length < subscriber.capacity
      · have whole : subscriber.received ++ (subscriber.queue ++ [frame]) = history ++ [frame] := by
          rw [← append_assoc, follows.whole here uncut]
        have bound : (subscriber.queue ++ [frame]).length ≤ subscriber.capacity := by
          rw [length_append]
          exact room
        rw [deliver_room kept here room]
        exact ⟨whole ▸ prefix_refl _, fun _ _ => whole, follows.sender, follows.closed, joined,
          follows.capacity, bound⟩
      · rw [deliver_full kept here room]
        exact ⟨begins, nofun, fun _ => by simp, fun _ => rfl, joined, follows.capacity, follows.bound⟩
    · rw [deliver_gone kept (Bool.not_eq_true _ ▸ here)]
      exact ⟨begins, fun here' => absurd here' here, fun here' => absurd here' here, fun _ => rfl, joined,
        follows.capacity, follows.bound⟩
  · rw [deliver_dropped (Bool.not_eq_true _ ▸ kept)]
    exact ⟨begins, fun here uncut => absurd ((follows.sender here).mpr ⟨uncut, rfl⟩) kept, follows.sender,
      follows.closed, joined, follows.capacity, follows.bound⟩

theorem Follows.dropSender (follows : Follows history closed subscriber) :
    Follows history true subscriber.dropSender where
  begins := follows.begins
  whole := follows.whole
  sender _ := ⟨nofun, fun both => nomatch both.2⟩
  closed _ := rfl
  joined := follows.joined
  capacity := follows.capacity
  bound := follows.bound

theorem Follows.receive (follows : Follows history closed subscriber) :
    Follows history closed subscriber.receive := by
  cases waiting : subscriber.queue with
  | nil =>
    have same : subscriber.receive = subscriber := by simp [Subscriber.receive, waiting]
    rw [same]
    exact follows
  | cons frame queue =>
    by_cases here : subscriber.receiver = true
    · have taken : subscriber.receive =
          { subscriber with queue := queue, received := subscriber.received ++ [frame] } := by
        simp [Subscriber.receive, waiting, here]
      have same : subscriber.received ++ [frame] ++ queue = subscriber.received ++ subscriber.queue := by
        rw [waiting, append_assoc]
        rfl
      have bound := follows.bound
      rw [waiting, length_cons] at bound
      rw [taken]
      exact ⟨same ▸ follows.begins, fun _ uncut => same ▸ follows.whole here uncut, follows.sender, follows.closed,
        follows.joined, follows.capacity, Nat.le_of_succ_le bound⟩
    · have same : subscriber.receive = subscriber := by simp [Subscriber.receive, waiting, here]
      rw [same]
      exact follows

theorem Follows.leave (follows : Follows history closed subscriber) : Follows history closed subscriber.leave where
  begins := by
    rw [Subscriber.leave, append_nil]
    exact (prefix_append _ _).trans follows.begins
  whole := nofun
  sender := nofun
  closed := follows.closed
  joined := follows.joined
  capacity := follows.capacity
  bound := Nat.zero_le _

theorem foldl_replay (here : subscriber.receiver = true) {frames : List α}
    (room : subscriber.queue.length + frames.length ≤ subscriber.capacity) :
    frames.foldl Subscriber.replay subscriber = { subscriber with queue := subscriber.queue ++ frames } := by
  induction frames generalizing subscriber with
  | nil => rw [foldl_nil, append_nil]
  | cons frame frames ih =>
    rw [length_cons] at room
    have first : subscriber.replay frame = { subscriber with queue := subscriber.queue ++ [frame] } := by
      have space : subscriber.queue.length < subscriber.capacity := by omega
      simp only [Subscriber.replay, Subscriber.trySend, here, Bool.not_true, Bool.false_eq_true, if_false, if_pos space]
    have space : (subscriber.queue ++ [frame]).length + frames.length ≤ subscriber.capacity := by
      rw [length_append, length_singleton]
      omega
    have rest := @ih { subscriber with queue := subscriber.queue ++ [frame] } here space
    rw [foldl_cons, first, rest, append_assoc]
    rfl

end

theorem attached_eq (hub : OutputHub α) :
    hub.attached = ⟨max subscriberQueueFrames hub.history.length, hub.history, !hub.closed, true, [],
      hub.history.length, false⟩ := by
  have room : ([] : List α).length + hub.history.length ≤ max subscriberQueueFrames hub.history.length := by
    rw [length_nil, Nat.zero_add]
    exact Nat.le_max_right _ _
  have sent := @foldl_replay α (.channel (max subscriberQueueFrames hub.history.length) hub.history.length) rfl
    hub.history room
  unfold attached
  rw [sent]
  cases hub.closed <;> rfl

theorem follows_attached (hub : OutputHub α) : Follows hub.history hub.closed hub.attached := by
  rw [attached_eq]
  refine ⟨prefix_refl _, fun _ _ => rfl, fun _ => ?_, fun closed => ?_, Nat.le_refl _, rfl, Nat.le_max_right _ _⟩
  · cases hub.closed <;> simp
  · rw [closed]
    rfl

/-! ### Every run -/

theorem mem_modify {subscribers : List (Subscriber α)} {index : Nat} {change : Subscriber α → Subscriber α}
    {subscriber : Subscriber α} (member : subscriber ∈ subscribers.modify index change) :
    ∃ before ∈ subscribers, subscriber = before ∨ subscriber = change before := by
  obtain ⟨place, found⟩ := getElem?_of_mem member
  rw [getElem?_modify] at found
  obtain ⟨before, held, same⟩ := Option.map_eq_some_iff.mp found
  refine ⟨before, mem_of_getElem? held, ?_⟩
  split_ifs at same
  · exact .inr same.symm
  · exact .inl same.symm

/-- **What a step keeps.** -/
theorem Sound.act {hub : OutputHub α} (sound : Sound hub) (step : OutputAct α) : Sound (hub.act step) := by
  cases step with
  | emit frame =>
    show Sound (hub.emit frame).2
    unfold emit
    cases closed : hub.closed with
    | true => exact sound
    | false =>
      refine ⟨fun subscriber member => ?_⟩
      obtain ⟨before, held, rfl⟩ := mem_map.mp member
      have follows := sound.follows before held
      rw [closed] at follows
      exact follows.deliver frame
  | subscribe =>
    refine ⟨fun subscriber member => ?_⟩
    rcases mem_append.mp member with held | last
    · exact sound.follows subscriber held
    · rw [mem_singleton.mp last]
      exact follows_attached hub
  | close =>
    show Sound hub.close.2
    unfold close
    cases closed : hub.closed with
    | true => exact sound
    | false =>
      refine ⟨fun subscriber member => ?_⟩
      obtain ⟨before, held, rfl⟩ := mem_map.mp member
      exact (sound.follows before held).dropSender
  | receive index =>
    refine ⟨fun subscriber member => ?_⟩
    obtain ⟨before, held, rfl | rfl⟩ := mem_modify member
    · exact sound.follows _ held
    · exact (sound.follows _ held).receive
  | leave index =>
    refine ⟨fun subscriber member => ?_⟩
    obtain ⟨before, held, rfl | rfl⟩ := mem_modify member
    · exact sound.follows _ held
    · exact (sound.follows _ held).leave

theorem run_sound (acts : List (OutputAct α)) : Sound (run acts) := by
  induction acts using List.reverseRecOn with
  | nil => exact ⟨nofun⟩
  | append_singleton acts last ih =>
    rw [run_concat]
    exact ih.act last

/-! ### What a hub accepts -/

/-- The frames that are emitted before the hub is closed. -/
def accepted : List (OutputAct α) → List α
  | [] => []
  | .emit frame :: acts => frame :: accepted acts
  | .close :: _ => []
  | _ :: acts => accepted acts

theorem accepted_concat (acts : List (OutputAct α)) (last : OutputAct α) :
    accepted (acts ++ [last]) =
      if acts.any OutputAct.closes then accepted acts else accepted acts ++ last.frames := by
  induction acts with
  | nil => cases last <;> rfl
  | cons first acts ih =>
    cases first with
    | emit frame =>
      show frame :: accepted (acts ++ [last]) = if acts.any OutputAct.closes then frame :: accepted acts else _
      rw [ih]
      split_ifs <;> rfl
    | close => rfl
    | _ => exact ih

theorem run_accepts (acts : List (OutputAct α)) :
    (run acts).history = accepted acts ∧ (run acts).closed = acts.any OutputAct.closes := by
  induction acts using List.reverseRecOn with
  | nil => exact ⟨rfl, rfl⟩
  | append_singleton acts last ih =>
    obtain ⟨history, closed⟩ := ih
    rw [run_concat, accepted_concat, any_append, ← closed, ← history]
    cases last with
    | emit frame =>
      cases ended : (run acts).closed <;> simp [act, emit, ended, OutputAct.closes, OutputAct.frames]
    | close => cases ended : (run acts).closed <;> simp [act, close, ended, OutputAct.closes, OutputAct.frames]
    | subscribe => simp [act, subscribe, OutputAct.closes, OutputAct.frames]
    | receive index => simp [act, OutputAct.closes, OutputAct.frames]
    | leave index => simp [act, OutputAct.closes, OutputAct.frames]

/-! ### Who is cut off -/

/-- A frame finds the queue of a subscriber full. -/
def CutsOff (hub : OutputHub α) (frame : α) (subscriber : Subscriber α) : Prop :=
  hub.closed = false ∧ subscriber.cut = false ∧ (subscriber.deliver frame).cut = true

/-- The frames since a subscriber came that it has not read. -/
def unread (hub : OutputHub α) (subscriber : Subscriber α) : List α :=
  hub.history.drop (max subscriber.joined subscriber.received.length)

theorem cutsOff_iff {hub : OutputHub α} {frame : α} {subscriber : Subscriber α}
    (follows : Follows hub.history hub.closed subscriber) :
    hub.CutsOff frame subscriber ↔
      subscriber.sender = true ∧ subscriber.receiver = true ∧ subscriber.queue.length = subscriber.capacity := by
  constructor
  · rintro ⟨-, uncut, cuts⟩
    by_cases kept : subscriber.sender = true
    · by_cases here : subscriber.receiver = true
      · refine ⟨kept, here, Nat.le_antisymm follows.bound (Nat.le_of_not_lt fun room => ?_)⟩
        rw [deliver_room kept here room] at cuts
        exact absurd (cuts.symm.trans uncut) (by decide)
      · rw [deliver_gone kept (Bool.not_eq_true _ ▸ here)] at cuts
        exact absurd (cuts.symm.trans uncut) (by decide)
    · rw [deliver_dropped (Bool.not_eq_true _ ▸ kept)] at cuts
      exact absurd (cuts.symm.trans uncut) (by decide)
  · rintro ⟨kept, here, full⟩
    obtain ⟨uncut, running⟩ := (follows.sender here).mp kept
    refine ⟨running, uncut, ?_⟩
    rw [deliver_full kept here (Nat.not_lt.mpr full.ge)]

theorem unread_iff {hub : OutputHub α} {subscriber : Subscriber α} (follows : Follows hub.history hub.closed subscriber)
    (kept : subscriber.sender = true) (here : subscriber.receiver = true)
    (full : subscriber.queue.length = subscriber.capacity) :
    subscriberQueueFrames ≤ (hub.unread subscriber).length ↔
      min subscriber.joined subscriberQueueFrames ≤ subscriber.received.length := by
  have all := congrArg List.length (follows.whole here ((follows.sender here).mp kept).1)
  have capacity := follows.capacity
  have joined := follows.joined
  rw [length_append, full, capacity] at all
  rw [unread, length_drop]
  omega

/-! ### The output as a whole -/

/-- What is said of a run of a hub. -/
structure Lossless (acts : List (OutputAct α)) : Prop where
  accepted : (run acts).history = accepted acts
  answered : ∀ before frame after, acts = before ++ .emit frame :: after →
    ((run before).emit frame).1 = !before.any OutputAct.closes
  received : ∀ subscriber ∈ (run acts).subscribers, subscriber.received <+: (run acts).history
  complete : ∀ subscriber ∈ (run acts).subscribers, (run acts).closed = true → subscriber.receiver = true →
    subscriber.cut = false → subscriber.queue = [] → subscriber.received = (run acts).history
  patient : ∀ before frame after, acts = before ++ .emit frame :: after →
    ∀ subscriber ∈ (run before).subscribers, (run before).CutsOff frame subscriber →
      subscriberQueueFrames ≤ ((run before).unread subscriber).length

/-- A subscriber whose queue is full has read the frames from before it came, or as many as a queue holds. -/
def ReadsReplay (acts : List (OutputAct α)) : Prop :=
  ∀ before frame after, acts = before ++ .emit frame :: after → ∀ subscriber ∈ (run before).subscribers,
    subscriber.sender = true → subscriber.receiver = true → subscriber.queue.length = subscriber.capacity →
      min subscriber.joined subscriberQueueFrames ≤ subscriber.received.length

/-- **The output of a transport.** Nothing is lost, doubled or reordered in any run; and only slow subscribers are
cut off, exactly when nobody's queue is filled by old frames. -/
theorem lossless_iff (acts : List (OutputAct α)) : Lossless acts ↔ ReadsReplay acts := by
  constructor
  · intro lossless before frame after split subscriber member kept here full
    have follows := (run_sound before).follows subscriber member
    have patient := lossless.patient before frame after split subscriber member
      ((cutsOff_iff follows).mpr ⟨kept, here, full⟩)
    exact (unread_iff follows kept here full).mp patient
  · intro reads
    refine ⟨(run_accepts acts).1, fun before frame after _ => ?_, fun subscriber member => ?_,
      fun subscriber member _ here uncut empty => ?_, fun before frame after split subscriber member cuts => ?_⟩
    · rw [← (run_accepts before).2, emit]
      cases (run before).closed <;> rfl
    · exact (prefix_append _ _).trans ((run_sound acts).follows subscriber member).begins
    · have whole := ((run_sound acts).follows subscriber member).whole here uncut
      rwa [empty, append_nil] at whole
    · have follows := (run_sound before).follows subscriber member
      obtain ⟨kept, here, full⟩ := (cutsOff_iff follows).mp cuts
      exact (unread_iff follows kept here full).mpr (reads before frame after split subscriber member kept here full)

/-! ### A late subscriber -/

theorem run_emits (frames : List α) : run (frames.map OutputAct.emit) = ⟨frames, [], false⟩ := by
  induction frames using List.reverseRecOn with
  | nil => rfl
  | append_singleton frames frame ih =>
    rw [map_append, map_singleton, run_concat, ih]
    rfl

/-- Who comes late, with more frames waiting than a queue holds, is cut off by the next one. -/
theorem late_cut_off : ¬ ∀ acts : List (OutputAct Unit), Lossless acts := by
  intro always
  obtain ⟨frames, many⟩ : ∃ frames : List Unit, frames.length = 1025 := ⟨List.replicate 1025 (), length_replicate⟩
  have late : run (frames.map OutputAct.emit ++ [.subscribe]) = (run (frames.map OutputAct.emit)).subscribe :=
    run_concat _ _
  have joined : (run (frames.map OutputAct.emit)).attached = ⟨1025, frames, true, true, [], 1025, false⟩ := by
    rw [run_emits, attached_eq, many]
    rfl
  have member : (⟨1025, frames, true, true, [], 1025, false⟩ : Subscriber Unit) ∈
      (run (frames.map OutputAct.emit ++ [.subscribe])).subscribers := by
    rw [late, ← joined]
    exact mem_append_right _ (mem_singleton_self _)
  have follows := (run_sound _).follows _ member
  have cuts := (@cutsOff_iff _ _ () _ follows).mpr ⟨rfl, rfl, many⟩
  have patient := (always _).patient _ () [] rfl _ member cuts
  rw [unread_iff follows rfl rfl many] at patient
  exact absurd (show min 1025 1024 ≤ 0 from patient) (by decide)

end OutputHub

end Byok.Cursor.Transport
